import Mathlib.Data.Nat.Log
import Mathlib.Tactic.Ring

/-! Division of natural numbers to floats with a number of significant bits. The quotient is rounded to the nearest
    float, of two that are equally near to the even one, and then cut to an integer. -/

namespace FloatDivision

/-- The integer next to a quotient -/
def roundDiv (n d : Nat) : Nat :=
  let q := n / d
  let r := n % d
  if 2 * r < d ∨ (2 * r = d ∧ q % 2 = 0) then q else q + 1

/-- The number of bits of the integer part of a quotient -/
def bits (n d : Nat) : Nat := if n / d = 0 then 0 else Nat.log2 (n / d) + 1

/-- The integer part of the float with `p` bits that is next to a quotient -/
def floatDiv (p n d : Nat) : Nat :=
  let k := bits n d
  if k ≤ p then roundDiv (n * 2 ^ (p - k)) d / 2 ^ (p - k) else roundDiv n (d * 2 ^ (k - p)) * 2 ^ (k - p)

theorem le_roundDiv (n d : Nat) : n / d ≤ roundDiv n d := by
  unfold roundDiv
  dsimp only
  split
  · exact Nat.le_refl _
  · exact Nat.le_succ _

/-- A quotient is not rounded up to an integer that is more than a half away. -/
theorem roundDiv_lt {n d m : Nat} (hd : 0 < d) (h : 2 * n + d < 2 * (m * d)) : roundDiv n d < m := by
  have hdiv : n / d * d + n % d = n := Nat.div_add_mod' n d
  have hmod : n % d < d := Nat.mod_lt _ hd
  unfold roundDiv
  dsimp only
  split
  · exact Nat.lt_of_mul_lt_mul_right (a := d) (by omega)
  · rename_i hup
    have hhalf : d ≤ 2 * (n % d) := Nat.le_of_not_lt fun hlt => hup (.inl hlt)
    refine Nat.lt_of_mul_lt_mul_right (a := d) ?_
    rw [Nat.add_mul, Nat.one_mul]
    omega

theorem bits_le {p n d : Nat} (hn : n < 2 ^ p) : bits n d ≤ p := by
  rw [bits]
  split
  · exact Nat.zero_le p
  · rename_i hpos
    exact (Nat.log2_lt hpos).mpr (Nat.lt_of_le_of_lt (Nat.div_le_self n d) hn)

/-- Between a small quotient and the next integer there are floats. -/
theorem distance_of_lt {p n d gap : Nat} (hn : n < 2 ^ p) (hgap : (n / d + 1) * d = n + gap) (hpos : 0 < gap) :
    d < 2 * (2 ^ (p - bits n d) * gap) := by
  by_cases hq : n / d = 0
  · have hbits : bits n d = 0 := if_pos hq
    have hd : d = n + gap := by rw [← hgap, hq, Nat.zero_add, Nat.one_mul]
    have hle : 2 ^ p ≤ 2 ^ p * gap := Nat.le_mul_of_pos_right _ hpos
    have hle' : gap ≤ 2 ^ p * gap := Nat.le_mul_of_pos_left _ (Nat.two_pow_pos p)
    rw [hbits, Nat.sub_zero]
    omega
  · have hbits : bits n d = Nat.log2 (n / d) + 1 := if_neg hq
    have hle : bits n d ≤ p := bits_le hn
    have hpow : 2 ^ Nat.log2 (n / d) * d < 2 ^ Nat.log2 (n / d) * (2 * 2 ^ (p - bits n d)) := by
      calc 2 ^ Nat.log2 (n / d) * d ≤ n / d * d := Nat.mul_le_mul_right _ (Nat.log2_self_le hq)
        _ ≤ n := Nat.div_mul_le_self n d
        _ < 2 ^ p := hn
        _ = 2 ^ (Nat.log2 (n / d) + 1 + (p - bits n d)) := by rw [← hbits, Nat.add_sub_cancel' hle]
        _ = 2 ^ Nat.log2 (n / d) * (2 * 2 ^ (p - bits n d)) := by ring
    have hlt : d < 2 * 2 ^ (p - bits n d) := Nat.lt_of_mul_lt_mul_left hpow
    have hle' : 2 ^ (p - bits n d) ≤ 2 ^ (p - bits n d) * gap := Nat.le_mul_of_pos_right _ hpos
    omega

/-- The integer part of a small quotient does not depend on the rounding. -/
theorem floatDiv_of_lt {p n d : Nat} (hd : 0 < d) (hn : n < 2 ^ p) : floatDiv p n d = n / d := by
  have hlow : n / d * d ≤ n := Nat.div_mul_le_self n d
  have hhigh : n < (n / d + 1) * d := Nat.lt_mul_of_div_lt (Nat.lt_succ_self _) hd
  obtain ⟨gap, hgap⟩ := Nat.exists_eq_add_of_le (Nat.le_of_lt hhigh)
  have hdistance := distance_of_lt hn hgap (by omega)
  rw [floatDiv, if_pos (bits_le hn)]
  refine Nat.div_eq_of_lt_le ?_ (roundDiv_lt hd ?_)
  · refine Nat.le_trans ((Nat.le_div_iff_mul_le hd).mpr ?_) (le_roundDiv _ d)
    rw [Nat.mul_right_comm]
    exact Nat.mul_le_mul_right _ hlow
  · have hnext : (n / d + 1) * 2 ^ (p - bits n d) * d =
        n * 2 ^ (p - bits n d) + 2 ^ (p - bits n d) * gap := by
      rw [Nat.mul_right_comm, hgap, Nat.add_mul, Nat.mul_comm gap]
    omega

theorem floatDiv_lt {p n d e : Nat} (hd : 0 < d) (hn : n < 2 ^ p) (he : p ≤ e) : floatDiv p n d < 2 ^ e := by
  rw [floatDiv_of_lt hd hn]
  calc n / d ≤ n := Nat.div_le_self n d
    _ < 2 ^ p := hn
    _ ≤ 2 ^ e := Nat.pow_le_pow_right (by decide) he

end FloatDivision
