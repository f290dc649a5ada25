import Mathlib.Algebra.Polynomial.Div
import Mathlib.Algebra.Polynomial.OfFn
import Mathlib.Algebra.Field.ZMod
import Mathlib.Tactic.Ring
import Avatar.Lib.Crc

/-! The register of a cyclic redundancy check as a polynomial over the field of two elements. The bit that falls out
    first is the coefficient of the highest power, and the register is what is left of the division of the string. -/

namespace Crc
open Polynomial
variable {w : Nat} {poly : BitVec w}

def coefficient (b : Bool) : ZMod 2 := if b then 1 else 0

theorem coefficient_xor (b b' : Bool) : coefficient (b ^^ b') = coefficient b + coefficient b' := by
  cases b <;> cases b' <;> rfl

theorem coefficient_and (b b' : Bool) : coefficient (b && b') = coefficient b * coefficient b' := by
  cases b <;> cases b' <;> rfl

theorem coefficient_add_self (b : Bool) : coefficient b + coefficient b = 0 := by
  cases b <;> rfl

noncomputable def toPoly (c : BitVec w) : (ZMod 2)[X] := ofFn w fun i => coefficient (c.getLsbD (w - 1 - i))

/-- The polynomial of a register that stands for its lower coefficients. -/
noncomputable def generator (poly : BitVec w) : (ZMod 2)[X] := X ^ w + toPoly poly

/-- A string of bits, the coefficient of the highest power first. -/
noncomputable def message (bits : List Bool) : (ZMod 2)[X] :=
  bits.foldl (fun p b => X * p + C (coefficient b)) 0

/-! ### Coefficients -/

theorem coeff_toPoly (c : BitVec w) (n : Nat) :
    (toPoly c).coeff n = if n < w then coefficient (c.getLsbD (w - 1 - n)) else 0 := by
  rw [toPoly]
  split_ifs with h
  · exact ofFn_coeff_eq_val_of_lt _ h
  · exact ofFn_coeff_eq_zero_of_ge _ (Nat.le_of_not_lt h)

theorem degree_toPoly_lt (c : BitVec w) : (toPoly c).degree < w := ofFn_degree_lt _

theorem toPoly_zero : toPoly 0#w = 0 := by
  ext n
  simp [coeff_toPoly, coefficient]

theorem toPoly_xor (c d : BitVec w) : toPoly (c ^^^ d) = toPoly c + toPoly d := by
  ext n
  simp only [coeff_toPoly, coeff_add, BitVec.getLsbD_xor, coefficient_xor]
  split_ifs
  · rfl
  · exact (add_zero 0).symm

theorem monic_generator (poly : BitVec w) : (generator poly).Monic := monic_X_pow_add (degree_toPoly_lt poly)

theorem degree_generator (poly : BitVec w) : (generator poly).degree = w := by
  rw [generator, degree_add_eq_left_of_degree_lt, degree_X_pow]
  rw [degree_X_pow]
  exact degree_toPoly_lt poly

/-! ### The register -/

/-- A shift multiplies by `X`, and subtracts the generator where the highest power goes beyond the register. -/
theorem toPoly_shift (hw : 0 < w) (c : BitVec w) :
    toPoly (shift poly c) = X * toPoly c + C (coefficient (c.getLsbD 0)) * generator poly := by
  have hshift (i : Nat) : (shift poly c).getLsbD i = (c.getLsbD (i + 1) ^^ (c.getLsbD 0 && poly.getLsbD i)) := by
    rw [shift]
    cases c.getLsbD 0 <;> simp [Nat.add_comm]
  ext n
  rw [coeff_toPoly, hshift, coefficient_xor, coefficient_and, coeff_add, coeff_C_mul, generator, coeff_add, coeff_X_pow,
    coeff_toPoly]
  cases n with
  | zero =>
    have htop : c.getLsbD (w - 1 + 1) = false := c.getLsbD_of_ge _ (by omega)
    rw [if_pos hw, if_pos hw, if_neg (Nat.ne_of_lt hw), coeff_X_mul_zero, Nat.sub_zero, htop,
      show coefficient false = 0 from rfl, zero_add, zero_add, zero_add]
  | succ n =>
    rw [coeff_X_mul, coeff_toPoly]
    rcases Nat.lt_trichotomy (n + 1) w with h | h | h
    · have hindex : w - 1 - (n + 1) + 1 = w - 1 - n := by omega
      rw [if_pos h, if_pos h, if_pos (Nat.lt_of_succ_lt h), if_neg (Nat.ne_of_lt h), hindex, zero_add]
    · -- The highest power of the product falls out.
      have hindex : w - 1 - n = 0 := by omega
      rw [if_neg (Nat.not_lt_of_ge (Nat.le_of_eq h.symm)), if_neg (Nat.not_lt_of_ge (Nat.le_of_eq h.symm)), if_pos h,
        if_pos (Nat.lt_of_lt_of_eq (Nat.lt_succ_self n) h), hindex, add_zero, mul_one, coefficient_add_self]
    · rw [if_neg (Nat.not_lt_of_gt h), if_neg (Nat.not_lt_of_gt h), if_neg (by omega), if_neg (Nat.ne_of_gt h), add_zero,
        mul_zero, add_zero]

theorem toPoly_bit (hw : 0 < w) (b : Bool) : toPoly (bit b : BitVec w) = C (coefficient b) * X ^ (w - 1) := by
  ext n
  rw [coeff_toPoly, coeff_C_mul, coeff_X_pow]
  cases b with
  | false => simp [bit, coefficient]
  | true =>
    rcases Nat.lt_trichotomy n (w - 1) with h | h | h
    · have hlow : (1#w).getLsbD (w - 1 - n) = false := by simp [BitVec.getLsbD_one]; omega
      rw [if_pos (by omega), if_neg (Nat.ne_of_lt h), bit, if_pos rfl, hlow]
      rfl
    · have hlow : (1#w).getLsbD (w - 1 - n) = true := by simp [BitVec.getLsbD_one]; omega
      rw [if_pos (by omega), if_pos h, bit, if_pos rfl, hlow, mul_one]
    · rw [if_neg (by omega), if_neg (Nat.ne_of_gt h), mul_zero]

/-- The register holds the remainder of the string, shifted by the width of the register. -/
theorem toPoly_register (hw : 0 < w) (bits : List Bool) :
    toPoly (register poly 0#w bits) = (X ^ w * message bits) %ₘ generator poly := by
  suffices h : ∃ q, toPoly (register poly 0#w bits) + generator poly * q = X ^ w * message bits by
    obtain ⟨q, hq⟩ := h
    refine ((div_modByMonic_unique q _ (monic_generator poly) ⟨hq, ?_⟩).2).symm
    rw [degree_generator]
    exact degree_toPoly_lt _
  induction bits using List.reverseRecOn with
  | nil => exact ⟨0, by simp [register, message, toPoly_zero]⟩
  | append_singleton bits b ih =>
    obtain ⟨q, hq⟩ := ih
    let c := register poly 0#w bits
    have hfeed : register poly 0#w (bits ++ [b]) = shift poly (c ^^^ bit b) := register_append ..
    have hmessage : message (bits ++ [b]) = X * message bits + C (coefficient b) := by
      rw [message, List.foldl_append]
      rfl
    have hpow : (X : (ZMod 2)[X]) ^ w = X * X ^ (w - 1) := by rw [← pow_succ', Nat.sub_add_cancel hw]
    have hstring : X ^ w * (X * message bits + C (coefficient b)) =
        X * (toPoly c + generator poly * q) + X ^ w * C (coefficient b) := by
      rw [hq]
      ring
    refine ⟨X * q - C (coefficient ((c ^^^ bit b).getLsbD 0)), ?_⟩
    rw [hfeed, toPoly_shift hw, toPoly_xor, toPoly_bit hw, hmessage, hstring, hpow]
    ring

end Crc
