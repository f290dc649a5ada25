import Avatar.Lib.Ssa
import Avatar.Lib.WordMemory

/-! Words in the memory of the machine: what a store leaves at its own bytes and at the others, and a run of stores
    each of which goes right below the one before. -/

namespace Ssa
open Bytes
namespace Machine
variable {κ : Type} {m : Machine κ} {a b : BitVec 32} {v : BitVec 32} {words : List (BitVec 32)}

/-- An address is one of the `n` from `a` on. -/
def Within (a : BitVec 32) (n : Nat) (b : BitVec 32) : Prop := (b - a).toNat < n

theorem store32_memory_of_not_within (h : ¬Within a 4 b) : (m.store32 a v).memory b = m.memory b := by
  have h0 : b ≠ a := fun hb => h (by rw [hb, Within, BitVec.sub_self]; decide)
  have h1 : b ≠ a + 1 := fun hb => h (by rw [Within]; bv_omega)
  have h2 : b ≠ a + 2 := fun hb => h (by rw [Within]; bv_omega)
  have h3 : b ≠ a + 2 + 1 := fun hb => h (by rw [Within]; bv_omega)
  simp only [store32, store16, store8, if_neg h0, if_neg h1, if_neg h2, if_neg h3]

/-- The bytes of a word, put together again. -/
theorem append_bytes (v : BitVec 32) :
    (((v >>> 16).setWidth 16 >>> 8).setWidth 8 : Byte) ++ (((v >>> 16).setWidth 16).setWidth 8 : Byte) ++
      ((v.setWidth 16 >>> 8).setWidth 8 : Byte) ++ ((v.setWidth 16).setWidth 8 : Byte) = v := by
  refine BitVec.eq_of_getLsbD_eq fun i hi => ?_
  simp only [BitVec.getLsbD_append, BitVec.getLsbD_setWidth, BitVec.getLsbD_ushiftRight]
  grind

theorem load32_store32 : (m.store32 a v).load32 a = v := by
  have h01 : a ≠ a + 1 := by bv_omega
  have h02 : a ≠ a + 2 := by bv_omega
  have h03 : a ≠ a + 2 + 1 := by bv_omega
  have h12 : a + 1 ≠ a + 2 := by bv_omega
  have h13 : a + 1 ≠ a + 2 + 1 := by bv_omega
  have h23 : a + 2 ≠ a + 2 + 1 := by bv_omega
  have h3 : a + 3 = a + 2 + 1 := by bv_omega
  simp only [load32, store32, store16, store8, h3, if_neg h01, if_neg h02, if_neg h03, if_neg h12, if_neg h13,
    if_neg h23, if_pos]
  exact append_bytes v

theorem load32_congr {m' : Machine κ} (h : ∀ b, Within a 4 b → m'.memory b = m.memory b) : m'.load32 a = m.load32 a := by
  have hb : ∀ k : BitVec 32, k.toNat < 4 → m'.memory (a + k) = m.memory (a + k) := fun k hk =>
    h _ (by rw [Within]; bv_omega)
  have h0 := hb 0 (by decide)
  rw [show a + 0 = a from BitVec.add_zero a] at h0
  rw [load32, load32, hb 3 (by decide), hb 2 (by decide), hb 1 (by decide), h0]

/-! ### Bytes -/

theorem load16_eq : m.load16 a = BitVec.ofNat 16 (ofLE (WordMemory.load m.memory a 2)) := by
  have hbytes : WordMemory.load m.memory a 2 = [m.memory a, m.memory (a + 1)] := by
    simp [WordMemory.load, List.range_succ]
  have hlt : ofLE [m.memory a, m.memory (a + 1)] < 2 ^ 16 := (ofLE_lt _).trans_eq (by simp)
  refine BitVec.eq_of_toNat_eq ?_
  rw [hbytes, BitVec.toNat_ofNat, Nat.mod_eq_of_lt hlt, load16, toNat_append_byte]
  simp only [ofLE, Nat.mul_zero, Nat.add_zero]

theorem load32_eq : m.load32 a = BitVec.ofNat 32 (ofLE (WordMemory.load m.memory a 4)) := by
  have hbytes : WordMemory.load m.memory a 4 =
      [m.memory a, m.memory (a + 1), m.memory (a + 2), m.memory (a + 3)] := by
    simp [WordMemory.load, List.range_succ]
  have hlt : ofLE [m.memory a, m.memory (a + 1), m.memory (a + 2), m.memory (a + 3)] < 2 ^ 32 :=
    (ofLE_lt _).trans_eq (by simp)
  refine BitVec.eq_of_toNat_eq ?_
  rw [hbytes, BitVec.toNat_ofNat, Nat.mod_eq_of_lt hlt, load32, toNat_append_byte, toNat_append_byte,
    toNat_append_byte]
  simp only [ofLE, Nat.mul_zero, Nat.add_zero]

theorem store16_memory (v : BitVec 16) : (m.store16 a v).memory = WordMemory.store m.memory a (toLE 2 v.toNat) := by
  have hhigh : (v >>> 8).setWidth 8 = BitVec.ofNat 8 (v.toNat / 256) := by
    rw [← BitVec.ofNat_toNat, BitVec.toNat_ushiftRight, Nat.shiftRight_eq_div_pow]
  funext x
  simp only [store16, store8, WordMemory.store, toLE, hhigh, ← BitVec.ofNat_toNat 8 v]
  by_cases h0 : x = a
  · have h1 : a ≠ a + 1 := by bv_omega
    rw [h0, if_neg h1, if_pos rfl, BitVec.sub_self]
    rfl
  · by_cases h1 : x = a + 1
    · rw [if_pos h1, show (x - a).toNat = 1 by bv_omega]
      rfl
    · have hlength : [BitVec.ofNat 8 v.toNat, BitVec.ofNat 8 (v.toNat / 256)].length ≤ (x - a).toNat := by
        show 2 ≤ (x - a).toNat
        bv_omega
      rw [if_neg h1, if_neg h0, List.getElem?_eq_none hlength, Option.getD_none]

theorem store32_memory : (m.store32 a v).memory = WordMemory.store m.memory a (toLE 4 v.toNat) := by
  have hlow : toLE 2 (v.setWidth 16).toNat = toLE 2 v.toNat := by
    rw [BitVec.toNat_setWidth]
    exact toLE_mod 2 v.toNat
  have hhigh : toLE 2 ((v >>> 16).setWidth 16).toNat = toLE 2 (v.toNat / 256 / 256) := by
    rw [BitVec.toNat_setWidth, BitVec.toNat_ushiftRight, Nat.shiftRight_eq_div_pow, Nat.div_div_eq_div_mul]
    exact toLE_mod 2 (v.toNat / 65536)
  have hlength : (toLE 2 v.toNat).length + (toLE 2 (v.toNat / 256 / 256)).length ≤ 2 ^ 32 := by
    rw [length_toLE, length_toLE]
    decide
  rw [store32, store16_memory, store16_memory, hlow, hhigh]
  exact WordMemory.store_append m.memory a hlength

/-! ### Stacks -/

/-- Store words, each one right below the one before; the first one right below `a`. -/
def pushWords (m : Machine κ) (a : BitVec 32) : List (BitVec 32) → Machine κ
  | [] => m
  | word :: words => (m.store32 (a - 4) word).pushWords (a - 4) words

theorem members_pushWords : (m.pushWords a words).members = m.members := by
  induction words generalizing m a with
  | nil => rfl
  | cons word words ih => exact ih

/-- Only the bytes below `a` that the words need are written. -/
theorem memory_pushWords (hlength : 4 * words.length ≤ 2 ^ 32)
    (h : ¬Within (a - 4 * BitVec.ofNat 32 words.length) (4 * words.length) b) :
    (m.pushWords a words).memory b = m.memory b := by
  induction words generalizing m a with
  | nil => rfl
  | cons word words ih =>
    rw [List.length_cons] at hlength h
    have hword : ¬Within (a - 4) 4 b := by
      rw [Within] at h ⊢
      bv_omega
    have hwords : ¬Within (a - 4 - 4 * BitVec.ofNat 32 words.length) (4 * words.length) b := by
      rw [Within] at h ⊢
      bv_omega
    rw [pushWords, ih (by omega) hwords, store32_memory_of_not_within hword]

theorem load32_pushWords (hlength : 4 * words.length ≤ 2 ^ 32) {i : Nat} (hi : i < words.length) :
    (m.pushWords a words).load32 (a - 4 * BitVec.ofNat 32 (i + 1)) = words[i] := by
  induction words generalizing m a i with
  | nil => exact absurd hi (Nat.not_lt_zero i)
  | cons word words ih =>
    rw [List.length_cons] at hlength hi
    cases i with
    | zero =>
      -- The words after the first one are stored below it.
      have hkept : ∀ b, Within (a - 4) 4 b →
          ((m.store32 (a - 4) word).pushWords (a - 4) words).memory b = (m.store32 (a - 4) word).memory b := by
        intro b hb
        refine memory_pushWords (by omega) fun hb' => ?_
        rw [Within] at hb hb'
        bv_omega
      exact (load32_congr hkept).trans load32_store32
    | succ i =>
      have haddress : a - 4 * BitVec.ofNat 32 (i + 1 + 1) = a - 4 - 4 * BitVec.ofNat 32 (i + 1) := by bv_omega
      rw [haddress]
      exact ih (by omega) (by omega)

/-- From the lowest address on the words are stored in the reverse order. -/
theorem load32_pushWords_reverse (hlength : 4 * words.length ≤ 2 ^ 32) {i : Nat} (hi : i < words.reverse.length) :
    (m.pushWords a words).load32 (a - 4 * BitVec.ofNat 32 words.length + 4 * BitVec.ofNat 32 i) = words.reverse[i] := by
  have hi' : i < words.length := List.length_reverse ▸ hi
  have haddress : a - 4 * BitVec.ofNat 32 words.length + 4 * BitVec.ofNat 32 i =
      a - 4 * BitVec.ofNat 32 (words.length - 1 - i + 1) := by
    rw [show words.length - 1 - i + 1 = words.length - i by omega]
    bv_omega
  rw [haddress, load32_pushWords hlength (by omega), List.getElem_reverse]

theorem length_flatMap_toLE (words : List (BitVec 32)) :
    (words.flatMap fun word => toLE 4 word.toNat).length = 4 * words.length := by
  simp [Nat.mul_comm]

/-- The bytes of words say what the words are. -/
theorem flatMap_toLE_injective {words words' : List (BitVec 32)}
    (h : (words.flatMap fun word => toLE 4 word.toNat) = words'.flatMap fun word => toLE 4 word.toNat) :
    words = words' := by
  induction words generalizing words' with
  | nil =>
    have hlength := congrArg List.length h
    rw [length_flatMap_toLE, length_flatMap_toLE, List.length_nil, Nat.mul_zero] at hlength
    exact (List.length_eq_zero_iff.mp (by omega)).symm
  | cons word words ih =>
    cases words' with
    | nil =>
      have hlength := congrArg List.length h
      rw [length_flatMap_toLE, length_flatMap_toLE, List.length_cons, List.length_nil] at hlength
      omega
    | cons word' words' =>
      rw [List.flatMap_cons, List.flatMap_cons] at h
      obtain ⟨hword, hwords⟩ := List.append_inj h (by rw [length_toLE, length_toLE])
      have hvalue := congrArg ofLE hword
      rw [ofLE_toLE_of_lt word.isLt, ofLE_toLE_of_lt word'.isLt, BitVec.toNat_inj] at hvalue
      rw [hvalue, ih hwords]
/-- From the lowest address on the bytes of the words are stored in the reverse order. -/
theorem pushWords_memory (hlength : 4 * words.length ≤ 2 ^ 32) : (m.pushWords a words).memory =
    WordMemory.store m.memory (a - 4 * BitVec.ofNat 32 words.length)
      (words.reverse.flatMap fun word => toLE 4 word.toNat) := by
  induction words generalizing m a with
  | nil =>
    funext x
    simp [pushWords, WordMemory.store]
  | cons word words ih =>
    rw [List.length_cons] at hlength
    have hbottom : a - 4 - 4 * BitVec.ofNat 32 words.length = a - 4 * BitVec.ofNat 32 (words.length + 1) := by bv_omega
    have htop : a - 4 = a - 4 * BitVec.ofNat 32 (words.length + 1) +
        BitVec.ofNat 32 (words.reverse.flatMap fun word => toLE 4 word.toNat).length := by
      rw [length_flatMap_toLE, List.length_reverse]
      bv_omega
    rw [pushWords, ih (by omega), store32_memory, hbottom, List.length_cons, List.reverse_cons, List.flatMap_append,
      List.flatMap_singleton, htop]
    refine WordMemory.store_append_first m.memory _ ?_
    rw [length_flatMap_toLE, List.length_reverse, length_toLE]
    omega

end Machine
end Ssa
