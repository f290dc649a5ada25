import Mathlib.Tactic.IntervalCases
import Avatar.Lib.CrcPolynomial
import Avatar.Theorems.CrcDetection

/-! The value of `Crc8` is that of the 1-wire polynomial. The tables are eight shifts of a register, so a byte string
    leaves what its bits leave one at a time: the remainder of the string, shifted by 8 bits. -/

namespace Avatar
open Bytes

namespace CrcDetection
open Polynomial

theorem generator_polynomial : Crc.generator polynomial = X ^ 8 + X ^ 5 + X ^ 4 + 1 := by
  ext n
  rw [Crc.generator, coeff_add, Crc.coeff_toPoly]
  simp only [coeff_add, coeff_X_pow, coeff_one]
  by_cases h : n < 8
  · rw [if_pos h]
    interval_cases n <;> rfl
  · rw [if_neg h, if_neg (by omega : n ≠ 5), if_neg (by omega : n ≠ 4), if_neg (by omega : n ≠ 0), add_zero, add_zero,
      add_zero]

theorem addBytes_append (crc : Byte) (a b : List Byte) :
    Crc8.addBytes crc (a ++ b) = Crc8.addBytes (Crc8.addBytes crc a) b := List.foldl_append

/-- `Crc8` is the bit-serial register of the polynomial, which holds the remainder of the division by it, and it does
    not matter how the string is divided among calls of `add_bytes`. -/
theorem crc8_eq_register (data : List Byte) :
    crc8 data = Crc.register polynomial 0 (bits data) ∧
      Crc.toPoly (crc8 data) = (X ^ 8 * Crc.message (bits data)) %ₘ (X ^ 8 + X ^ 5 + X ^ 4 + 1) ∧
      ∀ rest, Crc8.addBytes (Crc8.addBytes 0 data) rest = crc8 (data ++ rest) := by
  have hregister : crc8 data = Crc.register polynomial 0 (bits data) := addBytes_eq_register 0 data
  refine ⟨hregister, ?_, fun rest => (addBytes_append 0 data rest).symm⟩
  rw [hregister, ← generator_polynomial]
  exact Crc.toPoly_register (by decide) (bits data)

end CrcDetection

end Avatar
