import Mathlib.Data.List.Basic
import Mathlib.Logic.Function.Iterate

/-! Cyclic redundancy checks in the reflected order: a register of `w` bits into which a string of bits is
    shifted, the least significant bit of the register first.

    A shift is linear in exclusive or, so what an error does to the register depends on the error alone. The
    three kinds of errors that are always seen: bursts that fit into the register, errors that an invariant
    functional counts, and pairs of bits closer than the period of the register. -/

namespace Crc
variable {w : Nat} {poly : BitVec w}

/-- One shift of the register: the bit that falls out brings in the polynomial. -/
def shift (poly c : BitVec w) : BitVec w :=
  if c.getLsbD 0 then (c >>> 1) ^^^ poly else c >>> 1

/-- A bit at the end of the register that falls out first. -/
def bit (b : Bool) : BitVec w := if b then 1#w else 0#w

def feed (poly c : BitVec w) (b : Bool) : BitVec w := shift poly (c ^^^ bit b)

/-- The register after a string of bits. -/
def register (poly c : BitVec w) (bits : List Bool) : BitVec w := bits.foldl (feed poly) c

/-! ### Linearity -/

theorem shift_zero : shift poly 0#w = 0#w := by
  rw [shift, if_neg (by simp)]
  exact BitVec.zero_ushiftRight

theorem iterate_shift_zero (n : Nat) : (shift poly)^[n] 0#w = 0#w :=
  Function.iterate_fixed shift_zero n

theorem shift_xor (c d : BitVec w) : shift poly (c ^^^ d) = shift poly c ^^^ shift poly d := by
  have hcancel (x y : BitVec w) : x ^^^ poly ^^^ (y ^^^ poly) = x ^^^ y := by
    rw [BitVec.xor_assoc, BitVec.xor_comm y, ← BitVec.xor_assoc poly, BitVec.xor_self, BitVec.zero_xor]
  simp only [shift, BitVec.getLsbD_xor, BitVec.ushiftRight_xor_distrib]
  cases c.getLsbD 0 <;> cases d.getLsbD 0
  · rfl
  · exact BitVec.xor_assoc ..
  · show _ = c >>> 1 ^^^ poly ^^^ d >>> 1
    rw [BitVec.xor_assoc, BitVec.xor_assoc, BitVec.xor_comm poly]
    rfl
  · exact (hcancel _ _).symm

theorem bit_xor (b b' : Bool) : (bit (b ^^ b') : BitVec w) = bit b ^^^ bit b' := by
  cases b <;> cases b' <;> simp [bit]

theorem feed_xor (c d : BitVec w) (b b' : Bool) :
    feed poly (c ^^^ d) (b ^^ b') = feed poly c b ^^^ feed poly d b' := by
  have harrange : c ^^^ d ^^^ (bit b ^^^ bit b') = c ^^^ bit b ^^^ (d ^^^ bit b') := by ac_rfl
  rw [feed, bit_xor, harrange, shift_xor]
  rfl

/-- The register of a sum of two strings is the sum of their registers. -/
theorem register_xor (c d : BitVec w) {bits error : List Bool} (h : error.length = bits.length) :
    register poly (c ^^^ d) (List.zipWith (· ^^ ·) bits error) = register poly c bits ^^^ register poly d error := by
  induction bits generalizing c d error with
  | nil =>
    cases error with
    | nil => rfl
    | cons b error => cases h
  | cons b bits ih =>
    cases error with
    | nil => cases h
    | cons b' error =>
      show register poly (feed poly (c ^^^ d) (b ^^ b')) _ = _
      rw [feed_xor]
      exact ih _ _ (Nat.succ.inj h)

theorem register_append (c : BitVec w) (bits bits' : List Bool) :
    register poly c (bits ++ bits') = register poly (register poly c bits) bits' := List.foldl_append

theorem register_replicate_false (c : BitVec w) (n : Nat) :
    register poly c (List.replicate n false) = (shift poly)^[n] c := by
  induction n generalizing c with
  | zero => rfl
  | succ n ih =>
    rw [List.replicate_succ]
    show register poly (shift poly (c ^^^ 0#w)) _ = _
    rw [BitVec.xor_zero, ih, Function.iterate_succ_apply]

/-! ### Shifts are injective -/

/-- The polynomial brings its top bit back in, so no information falls out of the register. -/
theorem shift_eq_zero (hpoly : poly.getLsbD (w - 1) = true) {c : BitVec w} (h : shift poly c = 0#w) : c = 0#w := by
  rw [shift] at h
  split at h
  · -- The top bit of the result is that of the polynomial.
    have htop := congrArg (·.getLsbD (w - 1)) h
    simp only [BitVec.getLsbD_xor, BitVec.getLsbD_ushiftRight, hpoly, BitVec.getLsbD_zero] at htop
    rw [BitVec.getLsbD_of_ge c (1 + (w - 1)) (by omega)] at htop
    cases htop
  · rename_i hlow
    apply BitVec.eq_of_getLsbD_eq
    intro i hi
    cases i with
    | zero =>
      rw [Bool.not_eq_true] at hlow
      rw [hlow, BitVec.getLsbD_zero]
    | succ i =>
      have hbit := congrArg (·.getLsbD i) h
      simp only [BitVec.getLsbD_ushiftRight, BitVec.getLsbD_zero] at hbit
      rw [Nat.add_comm, hbit, BitVec.getLsbD_zero]

theorem iterate_shift_ne_zero (hpoly : poly.getLsbD (w - 1) = true) {c : BitVec w} (h : c ≠ 0#w) (n : Nat) :
    (shift poly)^[n] c ≠ 0#w := by
  induction n with
  | zero => exact h
  | succ n ih =>
    rw [Function.iterate_succ_apply']
    exact mt (shift_eq_zero hpoly) ih

/-! ### A whole register at once -/

/-- The number whose bits are `bits`, the least significant one first. -/
def ofBits : List Bool → BitVec w
  | [] => 0#w
  | b :: bits => bit b ^^^ (ofBits bits <<< 1)

theorem getLsbD_ofBits (bits : List Bool) (i : Nat) :
    (ofBits bits : BitVec w).getLsbD i = (decide (i < w) && (bits[i]?).getD false) := by
  induction bits generalizing i with
  | nil => simp [ofBits]
  | cons b bits ih =>
    rw [ofBits, BitVec.getLsbD_xor, BitVec.getLsbD_shiftLeft, ih]
    cases i with
    | zero => cases b <;> simp [bit]
    | succ i =>
      have hbit : (bit b : BitVec w).getLsbD (i + 1) = false := by
        cases b <;> simp [bit, BitVec.getLsbD_one]
      rw [hbit, Bool.false_xor, List.getElem?_cons_succ, Nat.add_sub_cancel]
      by_cases h : i + 1 < w
      · simp [h, Nat.lt_of_succ_lt h]
      · simp [h]

theorem ofBits_ne_zero {bits : List Bool} (hlen : bits.length ≤ w) (h : true ∈ bits) : (ofBits bits : BitVec w) ≠ 0#w := by
  obtain ⟨i, hi, heq⟩ := List.getElem_of_mem h
  intro hzero
  have hbit := congrArg (·.getLsbD i) hzero
  simp only [getLsbD_ofBits, List.getElem?_eq_getElem hi, heq, BitVec.getLsbD_zero] at hbit
  rw [decide_eq_true (Nat.lt_of_lt_of_le hi hlen)] at hbit
  cases hbit

/-- A bit that is not at the end only moves. -/
theorem shift_shiftLeft {bits : List Bool} (hlen : bits.length < w) :
    shift poly (ofBits bits <<< 1) = ofBits bits := by
  rw [shift, if_neg (by simp)]
  apply BitVec.eq_of_getLsbD_eq
  intro i hi
  rw [BitVec.getLsbD_ushiftRight, BitVec.getLsbD_shiftLeft, getLsbD_ofBits, getLsbD_ofBits, Nat.add_comm 1 i,
    Nat.add_sub_cancel]
  by_cases h : i + 1 < w
  · simp [h, hi]
  · rw [List.getElem?_eq_none (by omega)]
    simp

/-- Bits that fit into the register may be brought in all at once. -/
theorem register_eq_iterate (c : BitVec w) {bits : List Bool} (hlen : bits.length ≤ w) :
    register poly c bits = (shift poly)^[bits.length] (c ^^^ ofBits bits) := by
  induction bits generalizing c with
  | nil =>
    rw [ofBits, BitVec.xor_zero]
    rfl
  | cons b bits ih =>
    have hlt : bits.length < w := hlen
    show register poly (shift poly (c ^^^ bit b)) bits = _
    rw [ih _ (Nat.le_of_lt hlt), List.length_cons, Function.iterate_succ_apply, ofBits, ← BitVec.xor_assoc,
      shift_xor (c ^^^ bit b), shift_shiftLeft hlt]

/-! ### The errors that are seen -/

section Errors
variable {error : List Bool}

theorem eq_replicate_false {bits : List Bool} (h : true ∉ bits) : bits = List.replicate bits.length false :=
  List.eq_replicate_iff.mpr ⟨rfl, fun b hb => by
    cases b with
    | false => rfl
    | true => exact absurd hb h⟩

theorem register_zero_append {bits : List Bool} (h : true ∉ bits) (rest : List Bool) :
    register poly 0#w (bits ++ rest) = register poly 0#w rest := by
  rw [register_append, eq_replicate_false h, register_replicate_false, iterate_shift_zero]

theorem true_notMem_iff {bits : List Bool} : true ∉ bits ↔ ∀ i : Nat, bits[i]? ≠ some true := by
  rw [List.mem_iff_getElem?, not_exists]

/-- An error within as many places as the register has leaves it different. -/
theorem register_burst_ne_zero (hpoly : poly.getLsbD (w - 1) = true) (h : true ∈ error) {p : Nat}
    (hburst : ∀ i, error[i]? = some true → p ≤ i ∧ i < p + w) : register poly 0#w error ≠ 0#w := by
  obtain ⟨i, hi⟩ := List.mem_iff_getElem?.mp h
  have hbefore : true ∉ error.take p := true_notMem_iff.mpr fun j hj => by
    rw [List.getElem?_take] at hj
    split at hj
    · have := (hburst j hj).1
      omega
    · cases hj
  have hafter : true ∉ (error.drop p).drop w := true_notMem_iff.mpr fun j hj => by
    rw [List.drop_drop, List.getElem?_drop] at hj
    have := (hburst _ hj).2
    omega
  have hwindow : true ∈ (error.drop p).take w := by
    obtain ⟨hp, hlt⟩ := hburst i hi
    refine List.mem_iff_getElem?.mpr ⟨i - p, ?_⟩
    rw [List.getElem?_take, if_pos (by omega), List.getElem?_drop, Nat.add_sub_cancel' hp, hi]
  rw [← List.take_append_drop p error, register_zero_append hbefore, ← List.take_append_drop w (error.drop p),
    register_append, eq_replicate_false hafter, register_replicate_false,
    register_eq_iterate _ (List.length_take_le ..), BitVec.zero_xor]
  exact iterate_shift_ne_zero hpoly
    (iterate_shift_ne_zero hpoly (ofBits_ne_zero (List.length_take_le ..) hwindow) _) _

/-- Two bits are seen when their distance is no period of the register. -/
theorem register_pair_ne_zero (hpoly : poly.getLsbD (w - 1) = true) {i j : Nat}
    (hij : i < j) (hperiod : (shift poly)^[j - i] 1#w ≠ 1#w) (hpair : ∀ k, error[k]? = some true ↔ k = i ∨ k = j) :
    register poly 0#w error ≠ 0#w := by
  have split (k : Nat) (bits : List Bool) (hk : bits[k]? = some true) : bits = bits.take k ++ true :: bits.drop (k + 1) := by
    obtain ⟨hlt, heq⟩ := List.getElem?_eq_some_iff.mp hk
    rw [← heq, ← List.drop_eq_getElem_cons hlt, List.take_append_drop]
  have hi := (hpair i).mpr (.inl rfl)
  have hj : (error.drop (i + 1))[j - (i + 1)]? = some true := by
    rw [List.getElem?_drop, Nat.add_sub_cancel' hij]
    exact (hpair j).mpr (.inr rfl)
  have hbefore : true ∉ error.take i := true_notMem_iff.mpr fun k hk => by
    rw [List.getElem?_take] at hk
    split at hk
    · rcases (hpair k).mp hk with h | h <;> omega
    · cases hk
  have hbetween : true ∉ (error.drop (i + 1)).take (j - (i + 1)) := true_notMem_iff.mpr fun k hk => by
    rw [List.getElem?_take] at hk
    split at hk
    · rw [List.getElem?_drop] at hk
      rcases (hpair _).mp hk with h | h <;> omega
    · cases hk
  have hafter : true ∉ (error.drop (i + 1)).drop (j - (i + 1) + 1) := true_notMem_iff.mpr fun k hk => by
    rw [List.drop_drop, List.getElem?_drop] at hk
    rcases (hpair _).mp hk with h | h <;> omega
  have hlen : ((error.drop (i + 1)).take (j - (i + 1))).length = j - (i + 1) := by
    obtain ⟨hlt, -⟩ := List.getElem?_eq_some_iff.mp hj
    rw [List.length_take]
    omega
  have hfeed (c : BitVec w) : feed poly c true = shift poly (c ^^^ 1#w) := rfl
  rw [split i error hi, register_zero_append hbefore, split _ _ hj]
  show register poly (feed poly 0#w true) _ ≠ 0#w
  rw [register_append, eq_replicate_false hbetween, register_replicate_false, hlen]
  show register poly (feed poly _ true) _ ≠ 0#w
  have hiterate : (shift poly)^[j - (i + 1)] (shift poly 1#w) = (shift poly)^[j - i] 1#w := by
    rw [← Function.iterate_succ_apply, Nat.succ_eq_add_one, show j - (i + 1) + 1 = j - i by omega]
  rw [eq_replicate_false hafter, register_replicate_false, hfeed, hfeed, BitVec.zero_xor, hiterate]
  refine iterate_shift_ne_zero hpoly (mt (shift_eq_zero hpoly) fun hzero => hperiod ?_) _
  exact BitVec.xor_eq_zero_iff.mp hzero

/-- A functional that shifts do not change and that each bit changes counts the bits of a string. -/
theorem functional_register {φ : BitVec w → Bool} (hxor : ∀ c d, φ (c ^^^ d) = (φ c ^^ φ d)) (hone : φ 1#w = true)
    (hshift : ∀ c, φ (shift poly c) = φ c) (c : BitVec w) (bits : List Bool) :
    φ (register poly c bits) = (φ c ^^ decide (bits.count true % 2 = 1)) := by
  have hzero : φ 0#w = false := by
    rw [← BitVec.xor_self (x := 1#w), hxor, hone]
    rfl
  induction bits generalizing c with
  | nil => exact (Bool.xor_false _).symm
  | cons b bits ih =>
    show φ (register poly (feed poly c b) bits) = _
    rw [ih, feed, hshift, hxor, Bool.xor_assoc]
    congr 1
    cases b with
    | false => simp [bit, hzero]
    | true =>
      have hparity : decide ((bits.count true + 1) % 2 = 1) = !decide (bits.count true % 2 = 1) := by
        rw [← decide_not]
        exact decide_eq_decide.mpr (by omega)
      simp only [bit, if_true, hone, List.count_cons_self, hparity, Bool.true_xor]

end Errors

end Crc
