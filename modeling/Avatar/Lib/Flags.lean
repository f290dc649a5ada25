import Mathlib.Data.BitVec

/-! The flags of an addition and of a subtraction of machine words, and the conditions that are read off them. A flag
    says something about the operands as unsigned or signed integers; a condition that is evaluated on the flags of
    a subtraction compares the operands. -/

/-- Zero, negative, carry and overflow. -/
structure Flags where
  z : Bool
  n : Bool
  c : Bool
  v : Bool
deriving DecidableEq, Repr

namespace Flags
variable {w : Nat}

/-- The carry says that the unsigned sum does not fit. -/
def ofAdd (x y : BitVec w) : Flags where
  z := x + y == 0
  n := (x + y).msb
  c := decide (2 ^ w ≤ x.toNat + y.toNat)
  v := x.saddOverflow y

/-- The carry says that there is no borrow. -/
def ofSub (x y : BitVec w) : Flags where
  z := x - y == 0
  n := (x - y).msb
  c := decide (y.toNat ≤ x.toNat)
  v := x.ssubOverflow y

end Flags

inductive Condition where
  | eq
  | ne
  /-- Unsigned higher or same. -/
  | hs
  /-- Unsigned lower. -/
  | lo
  /-- Minus. -/
  | mi
  /-- Plus. -/
  | pl
  /-- Overflow set. -/
  | vs
  /-- Overflow clear. -/
  | vc
  /-- Unsigned higher. -/
  | hi
  /-- Unsigned lower or same. -/
  | ls
  /-- Signed greater or equal. -/
  | ge
  /-- Signed less. -/
  | lt
  /-- Signed greater. -/
  | gt
  /-- Signed less or equal. -/
  | le
deriving DecidableEq, Repr

namespace Condition
variable {w : Nat}

def holds (f : Flags) : Condition → Bool
  | eq => f.z
  | ne => !f.z
  | hs => f.c
  | lo => !f.c
  | mi => f.n
  | pl => !f.n
  | vs => f.v
  | vc => !f.v
  | hi => !f.z && f.c
  | ls => !f.c || f.z
  | ge => f.n == f.v
  | lt => f.n != f.v
  | gt => (f.n == f.v) && !f.z
  | le => (f.n != f.v) || f.z

/-- What a condition says about the operands of a subtraction. -/
def Compares (x y : BitVec w) : Condition → Prop
  | eq => x = y
  | ne => x ≠ y
  | hs => y.toNat ≤ x.toNat
  | lo => x.toNat < y.toNat
  | mi => (x - y).msb = true
  | pl => (x - y).msb = false
  | vs => ¬(-2 ^ (w - 1) ≤ x.toInt - y.toInt ∧ x.toInt - y.toInt < 2 ^ (w - 1))
  | vc => -2 ^ (w - 1) ≤ x.toInt - y.toInt ∧ x.toInt - y.toInt < 2 ^ (w - 1)
  | hi => y.toNat < x.toNat
  | ls => x.toNat ≤ y.toNat
  | ge => y.toInt ≤ x.toInt
  | lt => x.toInt < y.toInt
  | gt => y.toInt < x.toInt
  | le => x.toInt ≤ y.toInt

end Condition

/-! ### Flags from the bits of the operands and the result -/

namespace Flags
variable {w : Nat} (x y : BitVec w)

theorem zero_ofSub : (ofSub x y).z = (x == y) := by
  rw [ofSub, Bool.eq_iff_iff, beq_iff_eq, beq_iff_eq]
  exact sub_eq_zero

/-- The unsigned sum does not fit if and only if it wraps below an operand. -/
theorem carry_ofAdd : (ofAdd x y).c = (x + y).ult x := by
  rw [ofAdd, BitVec.ult_eq_decide, BitVec.toNat_add, decide_eq_decide]
  have hx := x.isLt
  have hy := y.isLt
  by_cases h : 2 ^ w ≤ x.toNat + y.toNat
  · have hmod : (x.toNat + y.toNat) % 2 ^ w = x.toNat + y.toNat - 2 ^ w := by
      rw [Nat.mod_eq_sub_mod h, Nat.mod_eq_of_lt (by omega)]
    omega
  · rw [Nat.mod_eq_of_lt (by omega)]
    omega

theorem overflow_ofAdd : (ofAdd x y).v = (!(x.msb ^^ y.msb) && (x.msb ^^ (x + y).msb)) := by
  rw [ofAdd, BitVec.saddOverflow_eq]
  cases x.msb <;> cases y.msb <;> cases (x + y).msb <;> rfl

theorem overflow_ofSub : (ofSub x y).v = ((x.msb ^^ y.msb) && (x.msb ^^ (x - y).msb)) := by
  rw [ofSub, BitVec.ssubOverflow_eq]
  cases x.msb <;> cases y.msb <;> cases (x - y).msb <;> rfl

end Flags

/-! ### Conditions on the flags of a subtraction -/

namespace Condition
variable {w : Nat} (x y : BitVec w)

/-- The sign of the difference is wrong if and only if the difference does not fit. -/
theorem less_ofSub : ((Flags.ofSub x y).n != (Flags.ofSub x y).v) = decide (x.toInt < y.toInt) := by
  cases hv : (Flags.ofSub x y).v with
  | false =>
    have hsub := BitVec.toInt_sub_of_not_ssubOverflow (Bool.not_eq_true _ ▸ hv)
    rw [Bool.bne_false, Flags.ofSub, BitVec.msb_eq_toInt, hsub, decide_eq_decide]
    omega
  | true =>
    -- The operands have different signs, and the sign of the difference is not that of the first one.
    rw [Flags.overflow_ofSub, Bool.and_eq_true, Bool.xor_iff_ne, Bool.xor_iff_ne] at hv
    obtain ⟨hxy, hn⟩ := hv
    rw [Bool.bne_true, Flags.ofSub, ← Bool.eq_not.mpr hn, BitVec.msb_eq_toInt, decide_eq_decide]
    simp only [BitVec.msb_eq_toInt, ne_eq, decide_eq_decide] at hxy
    omega

theorem overflow_ofSub : (Flags.ofSub x y).v = true ↔
    ¬(-2 ^ (w - 1) ≤ x.toInt - y.toInt ∧ x.toInt - y.toInt < 2 ^ (w - 1)) := by
  rw [Flags.ofSub, BitVec.ssubOverflow, Bool.or_eq_true, decide_eq_true_iff, decide_eq_true_iff]
  omega

/-- A condition on the flags of a subtraction compares the operands. -/
theorem holds_ofSub (cond : Condition) : cond.holds (Flags.ofSub x y) = true ↔ cond.Compares x y := by
  have hz : (Flags.ofSub x y).z = decide (x = y) := Flags.zero_ofSub x y
  have hc : (Flags.ofSub x y).c = decide (y.toNat ≤ x.toNat) := rfl
  have hlt := less_ofSub x y
  have hge : ((Flags.ofSub x y).n == (Flags.ofSub x y).v) = !decide (x.toInt < y.toInt) := by
    rw [← hlt, bne, Bool.not_not]
  have hsigned : x = y ↔ x.toInt = y.toInt := BitVec.toInt_inj.symm
  have hunsigned : x = y ↔ x.toNat = y.toNat := BitVec.toNat_inj.symm
  cases cond with
  | eq | ne => simp [holds, Compares, hz]
  | hs | lo => simp [holds, Compares, hc]
  | mi | pl => simp [holds, Compares, Flags.ofSub]
  | vs => exact overflow_ofSub x y
  | vc =>
    rw [holds, Bool.not_eq_true', ← Bool.not_eq_true, overflow_ofSub, not_not]
    rfl
  | hi | ls =>
    simp [holds, Compares, hz, hc, hunsigned]
    omega
  | ge => simp [holds, Compares, hge]
  | lt => simp [holds, Compares, hlt]
  | gt =>
    simp [holds, Compares, hge, hz, hsigned]
    omega
  | le =>
    simp [holds, Compares, hlt, hz, hsigned]
    omega

end Condition
