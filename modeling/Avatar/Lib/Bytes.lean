import Mathlib.Data.List.Basic
import Mathlib.Tactic.Ring

/-! Byte strings: slices, little-endian integers, and byte-addressed memories.

    A byte string is a list of 8-bit vectors. A slice clips its bounds to the string, as the slices of
    most scripting languages do, so it never fails and may come out short. -/

namespace Bytes

abbrev Byte := BitVec 8

/-- The elements of `l` at the positions `i ≤ k < j`. -/
def slice {α : Type} (l : List α) (i j : Nat) : List α := (l.take j).drop i

/-! ### Slices -/

section Slice
variable {α : Type} (l m : List α) (i j : Nat)

@[simp] theorem slice_nil : slice ([] : List α) i j = [] := by simp [slice]

@[simp] theorem length_slice : (slice l i j).length = min j l.length - i := by simp [slice]

theorem slice_eq_nil_of_le (h : l.length ≤ i) : slice l i j = [] := by
  apply List.eq_nil_of_length_eq_zero
  rw [length_slice]
  omega

theorem slice_append_of_le (h : j ≤ l.length) : slice (l ++ m) i j = slice l i j := by
  simp [slice, List.take_append_of_le_length h]

theorem slice_zero_of_length_le (h : l.length ≤ j) : slice l 0 j = l := by
  simp [slice, List.take_of_length_le h]

theorem slice_append_append (k : List α) : slice (k ++ (l ++ m)) k.length (k.length + l.length) = l := by
  simp [slice, List.take_append]

theorem getElem?_slice (k : Nat) : (slice l i j)[k]? = if i + k < j then l[i + k]? else none := by
  simp only [slice, List.getElem?_drop, List.getElem?_take]

end Slice

/-! ### Little-endian integers -/

/-- The `n` low bytes of `v`, the least significant one first. -/
def toLE : Nat → Nat → List Byte
  | 0, _ => []
  | n + 1, v => BitVec.ofNat 8 v :: toLE n (v / 256)

/-- The integer with the given bytes, the least significant one first. -/
def ofLE : List Byte → Nat
  | [] => 0
  | b :: bs => b.toNat + 256 * ofLE bs

@[simp] theorem length_toLE (n v : Nat) : (toLE n v).length = n := by
  induction n generalizing v with
  | zero => rfl
  | succ n ih => simp [toLE, ih]

theorem ofLE_toLE (n v : Nat) : ofLE (toLE n v) = v % 256 ^ n := by
  induction n generalizing v with
  | zero => simp [toLE, ofLE, Nat.mod_one]
  | succ n ih =>
    simp only [toLE, ofLE, ih, BitVec.toNat_ofNat, Nat.reducePow]
    rw [pow_succ', Nat.mod_mul]

theorem ofLE_toLE_of_lt {n v : Nat} (h : v < 256 ^ n) : ofLE (toLE n v) = v := by
  rw [ofLE_toLE, Nat.mod_eq_of_lt h]

theorem ofLE_lt (bs : List Byte) : ofLE bs < 256 ^ bs.length := by
  induction bs with
  | nil => exact Nat.one_pos
  | cons b bs ih =>
    have hb : b.toNat < 256 := b.isLt
    rw [ofLE, List.length_cons, pow_succ']
    calc b.toNat + 256 * ofLE bs < 256 + 256 * ofLE bs := Nat.add_lt_add_right hb _
      _ = 256 * (ofLE bs + 1) := by ring
      _ ≤ 256 * 256 ^ bs.length := Nat.mul_le_mul_left _ ih

theorem toLE_ofLE (bs : List Byte) : toLE bs.length (ofLE bs) = bs := by
  induction bs with
  | nil => rfl
  | cons b bs ih =>
    have hb : b.toNat < 256 := b.isLt
    have hhead : BitVec.ofNat 8 (b.toNat + 256 * ofLE bs) = b := by
      apply BitVec.eq_of_toNat_eq
      rw [BitVec.toNat_ofNat, Nat.add_mul_mod_self_left, Nat.mod_eq_of_lt hb]
    have htail : (b.toNat + 256 * ofLE bs) / 256 = ofLE bs := by
      rw [Nat.add_mul_div_left _ _ (by decide), Nat.div_eq_of_lt hb, Nat.zero_add]
    rw [List.length_cons, ofLE, toLE, hhead, htail, ih]

theorem toLE_mod (n v : Nat) : toLE n (v % 256 ^ n) = toLE n v := by
  have hbytes := toLE_ofLE (toLE n v)
  rwa [length_toLE, ofLE_toLE] at hbytes

theorem ofLE_append (as bs : List Byte) : ofLE (as ++ bs) = ofLE as + 256 ^ as.length * ofLE bs := by
  induction as with
  | nil => simp [ofLE]
  | cons a as ih =>
    simp only [List.cons_append, ofLE, ih, List.length_cons]
    ring

theorem ofLE_replicate_zero (n : Nat) : ofLE (List.replicate n 0) = 0 := by
  induction n with
  | zero => rfl
  | succ n ih => rw [List.replicate_succ, ofLE, ih]; rfl

/-- Bits above those of a number -/
theorem or_shiftLeft {x k : Nat} (hx : x < 2 ^ k) (y : Nat) : x ||| y <<< k = x + 2 ^ k * y := by
  rw [Nat.or_comm, ← Nat.shiftLeft_add_eq_or_of_lt hx, Nat.shiftLeft_eq, Nat.mul_comm, Nat.add_comm]

/-! ### Memories -/

abbrev Memory := Nat → Byte

/-- Store the bytes `bs` at `a`, `a + 1`, … -/
def Memory.store (m : Memory) (a : Nat) (bs : List Byte) : Memory := fun x =>
  if a ≤ x then (bs[x - a]?).getD (m x) else m x

def Memory.load (m : Memory) (a n : Nat) : List Byte := (List.range n).map fun i => m (a + i)

@[simp] theorem Memory.length_load (m : Memory) (a n : Nat) : (m.load a n).length = n := by simp [load]

namespace Memory
variable (m : Memory) (a : Nat) (bs cs : List Byte)

theorem store_of_lt {x : Nat} (h : x < a) : m.store a bs x = m x := by
  simp [store, Nat.not_le.mpr h]

theorem store_at (i : Nat) : m.store a bs (a + i) = (bs[i]?).getD (m (a + i)) := by
  simp [store]

theorem store_at_of_lt {i : Nat} (h : i < bs.length) : m.store a bs (a + i) = bs[i] := by
  rw [store_at, List.getElem?_eq_getElem h, Option.getD_some]

theorem store_at_of_le {i : Nat} (h : bs.length ≤ i) : m.store a bs (a + i) = m (a + i) := by
  rw [store_at, List.getElem?_eq_none h, Option.getD_none]

@[simp] theorem store_nil : m.store a [] = m := by
  funext x
  simp [store]

theorem store_cons (b : Byte) : m.store a (b :: bs) = (m.store a [b]).store (a + 1) bs := by
  funext x
  rcases Nat.lt_trichotomy x a with h | h | h
  · rw [store_of_lt _ _ _ h, store_of_lt _ _ _ (by omega), store_of_lt _ _ _ h]
  · subst h
    simp [store]
  · obtain ⟨k, rfl⟩ : ∃ k, x = a + 1 + k := ⟨x - (a + 1), by omega⟩
    rw [store_at, show a + 1 + k = a + (k + 1) by omega, store_at, store_at]
    simp

theorem store_store : (m.store a bs).store a bs = m.store a bs := by
  funext x
  simp only [store]
  split
  · cases bs[x - a]? <;> rfl
  · rfl

/-- Two stores at one address leave the same memory exactly when every byte that the longer one
    writes is what the other leaves there. -/
theorem store_eq_store_iff (h : cs.length ≤ bs.length) :
    m.store a cs = m.store a bs ↔ ∀ i, (hi : i < bs.length) → (cs[i]?).getD (m (a + i)) = bs[i] := by
  constructor
  · intro heq i hi
    have := congrFun heq (a + i)
    rwa [store_at, store_at_of_lt _ _ _ hi] at this
  · intro hall
    funext x
    by_cases hx : x < a
    · rw [store_of_lt _ _ _ hx, store_of_lt _ _ _ hx]
    obtain ⟨i, rfl⟩ : ∃ i, x = a + i := ⟨x - a, by omega⟩
    by_cases hi : i < bs.length
    · rw [store_at, hall i hi, store_at_of_lt _ _ _ hi]
    · rw [store_at_of_le _ _ _ (by omega), store_at_of_le _ _ _ (by omega)]

end Memory

end Bytes
