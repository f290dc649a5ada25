import Avatar.Lib.Bytes

/-! Memories whose addresses are machine words. An access that goes past the last address goes on at the first one. -/

namespace Bytes

abbrev WordMemory (w : Nat) := BitVec w → Byte

namespace WordMemory
variable {w : Nat} (m : WordMemory w) (a : BitVec w)

/-- The bytes at `a`, `a + 1`, … -/
def load (n : Nat) : List Byte := (List.range n).map fun i => m (a + BitVec.ofNat w i)

/-- Store the bytes `bs` at `a`, `a + 1`, …, at most as many as there are addresses. -/
def store (bs : List Byte) : WordMemory w := fun x => (bs[(x - a).toNat]?).getD (m x)

@[simp] theorem length_load (n : Nat) : (m.load a n).length = n := by simp [load]

theorem store_of_lt {bs : List Byte} {x : BitVec w} (h : (x - a).toNat < bs.length) :
    m.store a bs x = bs[(x - a).toNat] := by
  rw [store, List.getElem?_eq_getElem h, Option.getD_some]

theorem store_of_le {bs : List Byte} {x : BitVec w} (h : bs.length ≤ (x - a).toNat) : m.store a bs x = m x := by
  rw [store, List.getElem?_eq_none h, Option.getD_none]

/-- An address in front of `a + k` is far behind it. -/
theorem le_offset {k n : Nat} {x : BitVec w} (h : k + n ≤ 2 ^ w) (hx : (x - a).toNat < k) :
    n ≤ (x - (a + BitVec.ofNat w k)).toNat := by
  have hoffset : (x - (a + BitVec.ofNat w k)).toNat = (2 ^ w - k % 2 ^ w + (x - a).toNat) % 2 ^ w := by
    rw [← BitVec.sub_sub, BitVec.toNat_sub, BitVec.toNat_ofNat]
  rcases Nat.lt_or_ge k (2 ^ w) with hk | hk
  · rw [hoffset, Nat.mod_eq_of_lt hk, Nat.mod_eq_of_lt (by omega)]
    omega
  · omega

theorem toNat_offset {k : Nat} {x : BitVec w} (hx : k ≤ (x - a).toNat) :
    (x - (a + BitVec.ofNat w k)).toNat = (x - a).toNat - k := by
  have hlt : (x - a).toNat < 2 ^ w := (x - a).isLt
  have hk : k % 2 ^ w = k := Nat.mod_eq_of_lt (Nat.lt_of_le_of_lt hx hlt)
  rw [← BitVec.sub_sub, BitVec.toNat_sub, BitVec.toNat_ofNat, hk,
    show 2 ^ w - k + (x - a).toNat = (x - a).toNat - k + 2 ^ w by omega, Nat.add_mod_right,
    Nat.mod_eq_of_lt (Nat.lt_of_le_of_lt (Nat.sub_le ..) hlt)]

/-- Bytes that are stored behind others are stored with them, unless they come around to them. -/
theorem store_append {bs cs : List Byte} (h : bs.length + cs.length ≤ 2 ^ w) :
    (m.store a bs).store (a + BitVec.ofNat w bs.length) cs = m.store a (bs ++ cs) := by
  funext x
  simp only [store]
  rcases Nat.lt_or_ge (x - a).toNat bs.length with hlt | hge
  · rw [List.getElem?_append_left hlt, List.getElem?_eq_none (le_offset a h hlt), Option.getD_none]
  · rw [List.getElem?_append_right hge, toNat_offset a hge, List.getElem?_eq_none hge, Option.getD_none]

/-- The same if the bytes behind are stored first -/
theorem store_append_first {bs cs : List Byte} (h : bs.length + cs.length ≤ 2 ^ w) :
    (m.store (a + BitVec.ofNat w bs.length) cs).store a bs = m.store a (bs ++ cs) := by
  funext x
  simp only [store]
  rcases Nat.lt_or_ge (x - a).toNat bs.length with hlt | hge
  · rw [List.getElem?_append_left hlt, List.getElem?_eq_none (le_offset a h hlt), Option.getD_none]
  · rw [List.getElem?_append_right hge, toNat_offset a hge, List.getElem?_eq_none hge, Option.getD_none]

theorem store_at (bs : List Byte) {i : Nat} (hi : i < 2 ^ w) :
    m.store a bs (a + BitVec.ofNat w i) = (bs[i]?).getD (m (a + BitVec.ofNat w i)) := by
  rw [store, BitVec.add_comm, BitVec.add_sub_cancel, BitVec.toNat_ofNat, Nat.mod_eq_of_lt hi]

/-- The bytes that are stored can be told from the memory, unless they come around to the first one. -/
theorem store_inj {bs cs : List Byte} (hlength : bs.length = cs.length) (h : bs.length ≤ 2 ^ w) :
    m.store a bs = m.store a cs ↔ bs = cs := by
  refine ⟨fun heq => List.ext_getElem hlength fun i hi hi' => ?_, fun heq => by rw [heq]⟩
  have hbs := store_at m a bs (i := i) (by omega)
  rw [heq, store_at m a cs (by omega), List.getElem?_eq_getElem hi, List.getElem?_eq_getElem hi'] at hbs
  exact hbs.symm

end WordMemory

/-! ### Bytes of a word -/

/-- A byte behind the lowest place of a word -/
theorem toNat_append_byte {w : Nat} (v : BitVec w) (b : Byte) : (v ++ b).toNat = b.toNat + 256 * v.toNat := by
  rw [BitVec.toNat_append, ← Nat.shiftLeft_add_eq_or_of_lt b.isLt, Nat.shiftLeft_eq]
  ring

end Bytes
