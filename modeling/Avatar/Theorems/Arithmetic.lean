import Avatar.Translator.Effects

/-! Translated additions and shifts against the architecture. The result and the flags `Z`, `N` and `V` are right for
    all operands. The flag `C` is not: an addition also sets it where the second operand is the greater one, and a
    shift takes it from the result, out of which the bit has been shifted. -/

namespace Avatar.Translator

/-- The registers and flags after the addition of two words, as the architecture defines it. -/
structure Adds (d : Register) (rn x : BitVec 32) (registers registers' : Registers) : Prop where
  rd : registers' d = some (.i32 (BitVec.ofNat 32 ((rn.toNat + x.toNat) % 2 ^ 32)))
  z : registers' .flagZ = some (.i1 (decide ((rn.toNat + x.toNat) % 2 ^ 32 = 0)))
  n : registers' .flagN = some (.i1 (((rn.toNat + x.toNat) % 2 ^ 32).testBit 31))
  c : registers' .flagC = some (.i1 (decide (2 ^ 32 ≤ rn.toNat + x.toNat)))
  v : registers' .flagV = some (.i1 (decide (2 ^ 31 ≤ rn.toInt + x.toInt ∨ rn.toInt + x.toInt < -2 ^ 31)))
  others : registers.KeptExcept [d, .flagZ, .flagN, .flagC, .flagV] registers'

/-! ### Additions -/

section Additions
variable {inst : MCInst} {memory : CodeMemory} {translator : MCInst → EmitM Successor} {d n : Register} {x : Operand}
  {registers registers' : Registers} {rn y : BitVec 32}

theorem msb_eq_testBit (x : BitVec 32) : x.msb = x.toNat.testBit 31 := BitVec.msb_eq_getLsbD_last x

/-- The flag `C` that is computed is the carry unless the second operand is the greater one and nothing is carried. -/
theorem addFlags_c_eq_iff : (addFlags rn y).c = decide (2 ^ 32 ≤ rn.toNat + y.toNat) ↔
    y.toNat ≤ rn.toNat ∨ 2 ^ 32 ≤ rn.toNat + y.toNat := by
  have hcarry : (rn + y).ult rn = decide (2 ^ 32 ≤ rn.toNat + y.toNat) := (Flags.carry_ofAdd rn y).symm
  rw [addFlags, hcarry, BitVec.ult_eq_decide]
  by_cases h : 2 ^ 32 ≤ rn.toNat + y.toNat
  · rw [decide_eq_true h, Bool.or_true]
    exact iff_of_true rfl (.inr h)
  · rw [decide_eq_false h, Bool.or_false, decide_eq_false_iff_not, Nat.not_lt]
    exact (or_iff_left h).symm

theorem adds_iff (hd : d.isLow = true)
    (h : registers'.Agree ((registers.set d (.i32 (rn + y))).setFlags (addFlags rn y))) :
    Adds d rn y registers registers' ↔ y.toNat ≤ rn.toNat ∨ 2 ^ 32 ≤ rn.toNat + y.toNat := by
  have hc : registers' .flagC = some (.i1 (addFlags rn y).c) := h .flagC rfl
  rw [← addFlags_c_eq_iff]
  constructor
  · intro hadds
    have hflag := hc.symm.trans hadds.c
    rwa [Option.some.injEq, Ssa.Val.i1.injEq] at hflag
  · intro hright
    have hrd : (rn + y).toNat = (rn.toNat + y.toNat) % 2 ^ 32 := BitVec.toNat_add ..
    refine ⟨?_, ?_, ?_, hright ▸ hc, ?_, fun id hid hne => ?_⟩
    · rw [h d (by rw [(registerType_of_isLow hd).1]; rfl), Registers.setFlags_apply_of_ne (not_mem_flags_of_isLow hd),
        Registers.set_self, ← hrd, BitVec.ofNat_toNat, BitVec.setWidth_eq]
    · rw [h .flagZ rfl, ← hrd]
      exact congrArg (fun z => some (Ssa.Val.i1 z)) (decide_eq_decide.mpr BitVec.toNat_inj.symm)
    · rw [h .flagN rfl, ← hrd, ← msb_eq_testBit]
      rfl
    · rw [h .flagV rfl]
      exact congrArg (fun v => some (Ssa.Val.i1 v)) (Bool.decide_or ..).symm
    · rw [List.mem_cons, not_or] at hne
      rw [h id hid, Registers.setFlags_apply_of_ne hne.2, Registers.set_of_ne hne.1]

/-- For which operands a translated addition sets the result and the flags as the architecture defines them. -/
theorem addition_adds_iff (hopcode : inst.opcode = .tADDi8 ∨ inst.opcode = .tADDi3 ∨ inst.opcode = .tADDrr)
    (hwellFormed : WellFormed inst.opcode inst.operands)
    (htranslator : instructionTranslator memory inst.opcode = some translator)
    (hoperands : inst.operands = [.reg d, .reg .cpsr, .reg n, x] ++ Operand.always) (htyped : registers.Typed)
    (m : Machine) : ∃ registers', effect translator inst registers m = some (inst.nextPc, registers', m) ∧
      (Adds d (registers.word n) (registers.operand x) registers registers' ↔
        (registers.operand x).toNat ≤ (registers.word n).toNat ∨
          2 ^ 32 ≤ (registers.word n).toNat + (registers.operand x).toNat) := by
  obtain ⟨hd, registers', heffect, hagree⟩ := effect_addition hopcode hwellFormed htranslator hoperands htyped m
  exact ⟨registers', heffect, adds_iff hd hagree⟩

/-- `ADDS r0, r1, #1` -/
def addOne : MCInst := ⟨.tADDi3, [.reg .r0, .reg .cpsr, .reg .r1, .imm 1] ++ Operand.always, 0, 2⟩

theorem addOne_wellFormed : WellFormed addOne.opcode addOne.operands := ⟨_, _, _, rfl, rfl, rfl, trivial⟩

theorem addition_adds_iff_addOne : ∃ registers', effect tADDi8 addOne distinctRegisters zeroMachine =
    some (addOne.nextPc, registers', zeroMachine) ∧
      (Adds .r0 (distinctRegisters.word .r1) (distinctRegisters.operand (.imm 1)) distinctRegisters registers' ↔
        (distinctRegisters.operand (.imm 1)).toNat ≤ (distinctRegisters.word .r1).toNat ∨
          2 ^ 32 ≤ (distinctRegisters.word .r1).toNat + (distinctRegisters.operand (.imm 1)).toNat) :=
  have htranslator : instructionTranslator noCode addOne.opcode = some tADDi8 := rfl
  addition_adds_iff (.inr (.inl rfl)) addOne_wellFormed htranslator rfl distinctRegisters_typed _

/-- Zero plus one sets the flag `C`. -/
theorem not_addition_adds : ¬∀ (inst : MCInst) (memory : CodeMemory) (translator : MCInst → EmitM Successor)
    (d n : Register) (x : Operand) (registers : Registers) (m : Machine),
    (inst.opcode = .tADDi8 ∨ inst.opcode = .tADDi3 ∨ inst.opcode = .tADDrr) →
    WellFormed inst.opcode inst.operands → instructionTranslator memory inst.opcode = some translator →
    inst.operands = [.reg d, .reg .cpsr, .reg n, x] ++ Operand.always → registers.Typed →
    ∃ registers', effect translator inst registers m = some (inst.nextPc, registers', m) ∧
      Adds d (registers.word n) (registers.operand x) registers registers' := by
  intro h
  obtain ⟨registers', heffect, hadds⟩ := h addOne noCode tADDi8 .r0 .r1 (.imm 1) zeroRegisters
    zeroMachine (.inr (.inl rfl)) addOne_wellFormed rfl rfl zeroRegisters_typed
  have hc := hadds.c
  cases heffect
  exact absurd hc (by decide)

end Additions

/-! ### Shifts -/

/-- The registers and flags after a shift. -/
structure Shifts (d : Register) (result : BitVec 32) (carry : Bool) (registers registers' : Registers) : Prop where
  rd : registers' d = some (.i32 result)
  z : registers' .flagZ = some (.i1 (decide (result = 0)))
  n : registers' .flagN = some (.i1 (result.getLsbD 31))
  c : registers' .flagC = some (.i1 carry)
  others : registers.KeptExcept [d, .flagZ, .flagN, .flagC] registers'

/-- The result and the carry-out of a shift as the architecture defines them, for the encoded amount: the last bit
    that is shifted out of the operand. -/
def shifted (opcode : Opcode) (rm : BitVec 32) (n : Nat) : BitVec 32 × Bool :=
  if opcode = .tLSLri then (BitVec.ofNat 32 (rm.toNat * 2 ^ n % 2 ^ 32), rm.getLsbD (32 - n))
  else if n = 0 then (0, rm.getLsbD 31)
  else (BitVec.ofNat 32 (rm.toNat / 2 ^ n), rm.getLsbD (n - 1))

/-- The last bit that is shifted out is the same as the bit of the operand that takes its place in the result. -/
def CarryStays (opcode : Opcode) (rm : BitVec 32) (n : Nat) : Prop :=
  if opcode = .tLSLri then rm.getLsbD (32 - n) = (decide (2 * n ≤ 32) && rm.getLsbD (32 - 2 * n))
  else if n = 0 then True
  else rm.getLsbD (n - 1) = rm.getLsbD (2 * n - 1)

section Shifts
variable {inst : MCInst} {memory : CodeMemory} {translator : MCInst → EmitM Successor} {d n : Register}
  {registers registers' : Registers} {rd rm : BitVec 32} {c c' : Bool} {k : Nat}

/-- The flag `C` decides whether the registers are the right ones. -/
theorem shifts_iff (hd : d.isLow = true)
    (h : registers'.Agree ((registers.set d (.i32 rd)).setZNC (rd == 0) rd.msb c')) :
    Shifts d rd c registers registers' ↔ c = c' := by
  have hc : registers' .flagC = some (.i1 c') := h .flagC rfl
  constructor
  · intro hshifts
    have hflag := hshifts.c.symm.trans hc
    rwa [Option.some.injEq, Ssa.Val.i1.injEq] at hflag
  · rintro rfl
    have hflags : d ∉ [Register.flagZ, .flagN, .flagC] := by cases d <;> simp_all [Register.isLow]
    refine ⟨?_, h .flagZ rfl, ?_, hc, fun id hid hne => ?_⟩
    · rw [h d (by rw [(registerType_of_isLow hd).1]; rfl), Registers.setZNC_apply_of_ne hflags, Registers.set_self]
    · rw [← BitVec.msb_eq_getLsbD_last]
      exact h .flagN rfl
    · rw [List.mem_cons, not_or] at hne
      rw [h id hid, Registers.setZNC_apply_of_ne hne.2, Registers.set_of_ne hne.1]

theorem bit_of_shl (hk : 0 < k) (hk' : k < 32) :
    (rm <<< k).getLsbD (32 - k) = (decide (2 * k ≤ 32) && rm.getLsbD (32 - 2 * k)) := by
  rw [BitVec.getLsbD_shiftLeft, decide_eq_true (by omega), Bool.true_and, show 32 - k - k = 32 - 2 * k by omega]
  congr 1
  rw [← decide_not, decide_eq_decide]
  omega

theorem bit_of_shr (hk : 0 < k) : (rm >>> k).getLsbD (k - 1) = rm.getLsbD (2 * k - 1) := by
  rw [BitVec.getLsbD_ushiftRight, show k + (k - 1) = 2 * k - 1 by omega]

theorem shl_eq : rm <<< k = BitVec.ofNat 32 (rm.toNat * 2 ^ k % 2 ^ 32) := by
  rw [← BitVec.toNat_inj, BitVec.toNat_shiftLeft, BitVec.toNat_ofNat, Nat.mod_mod, Nat.shiftLeft_eq]

theorem shr_eq : rm >>> k = BitVec.ofNat 32 (rm.toNat / 2 ^ k) := by
  rw [← BitVec.toNat_inj, BitVec.toNat_ushiftRight, BitVec.toNat_ofNat, Nat.shiftRight_eq_div_pow,
    Nat.mod_eq_of_lt (Nat.lt_of_le_of_lt (Nat.div_le_self ..) rm.isLt)]

/-- For which operands a translated shift sets the result and the flags as the architecture defines them. -/
theorem shift_shifts_iff (hopcode : inst.opcode = .tLSLri ∨ inst.opcode = .tLSRri)
    (hwellFormed : WellFormed inst.opcode inst.operands)
    (htranslator : instructionTranslator memory inst.opcode = some translator)
    (hoperands : inst.operands = [.reg d, .reg .cpsr, .reg n, .imm k] ++ Operand.always) (htyped : registers.Typed)
    (m : Machine) : ∃ registers', effect translator inst registers m = some (inst.nextPc, registers', m) ∧
      (Shifts d (shifted inst.opcode (registers.word n) k).1 (shifted inst.opcode (registers.word n) k).2
        registers registers' ↔ CarryStays inst.opcode (registers.word n) k) := by
  rw [hoperands] at hwellFormed
  rcases hopcode with hopcode | hopcode <;> rw [hopcode] at hwellFormed htranslator ⊢ <;> cases htranslator <;>
    obtain ⟨_, _, _, heq, hd, hn, himm, himm'⟩ := hwellFormed <;> cases heq
  case inl =>
    obtain ⟨registers', heffect, hagree⟩ := effect_tLSLri hoperands hn (by omega) (by omega) htyped m
    rw [bit_of_shl (by omega) (by omega), shl_eq] at hagree
    refine ⟨registers', heffect, ?_⟩
    rw [shifted, if_pos rfl, CarryStays, if_pos rfl]
    exact shifts_iff hd hagree
  case inr =>
    cases k with
    | zero =>
      obtain ⟨registers', heffect, hagree⟩ := effect_tLSRri_zero hoperands hn htyped m
      refine ⟨registers', heffect, ?_⟩
      rw [shifted, if_neg (by simp), if_pos rfl, CarryStays, if_neg (by simp), if_pos rfl]
      exact (shifts_iff hd hagree).trans (iff_of_true (BitVec.msb_eq_getLsbD_last _).symm trivial)
    | succ k =>
      obtain ⟨registers', heffect, hagree⟩ := effect_tLSRri hoperands hn (by omega) (by omega) htyped m
      rw [bit_of_shr (by omega), shr_eq] at hagree
      refine ⟨registers', heffect, ?_⟩
      rw [shifted, if_neg (by simp), if_neg (by simp), CarryStays, if_neg (by simp), if_neg (by simp)]
      exact shifts_iff hd hagree

/-- `LSLS r0, r1, #1` -/
def shiftLeftOne : MCInst := ⟨.tLSLri, [.reg .r0, .reg .cpsr, .reg .r1, .imm 1] ++ Operand.always, 0, 2⟩

theorem shiftLeftOne_wellFormed : WellFormed shiftLeftOne.opcode shiftLeftOne.operands :=
  ⟨_, _, _, rfl, rfl, rfl, by decide, by decide⟩

theorem shift_shifts_iff_shiftLeftOne : ∃ registers',
    effect tLSLri shiftLeftOne distinctRegisters zeroMachine = some (shiftLeftOne.nextPc, registers', zeroMachine) ∧
      (Shifts .r0 (shifted .tLSLri (distinctRegisters.word .r1) 1).1 (shifted .tLSLri (distinctRegisters.word .r1) 1).2
        distinctRegisters registers' ↔ CarryStays .tLSLri (distinctRegisters.word .r1) 1) :=
  have htranslator : instructionTranslator noCode shiftLeftOne.opcode = some tLSLri := rfl
  shift_shifts_iff (.inl rfl) shiftLeftOne_wellFormed htranslator rfl distinctRegisters_typed _

/-- The upper bit is shifted out, and `C` stays clear. -/
theorem not_shift_shifts : ¬∀ (inst : MCInst) (memory : CodeMemory) (translator : MCInst → EmitM Successor)
    (d n : Register) (k : Nat) (registers : Registers) (m : Machine),
    (inst.opcode = .tLSLri ∨ inst.opcode = .tLSRri) → WellFormed inst.opcode inst.operands →
    instructionTranslator memory inst.opcode = some translator →
    inst.operands = [.reg d, .reg .cpsr, .reg n, .imm k] ++ Operand.always → registers.Typed →
    ∃ registers', effect translator inst registers m = some (inst.nextPc, registers', m) ∧
      Shifts d (shifted inst.opcode (registers.word n) k).1 (shifted inst.opcode (registers.word n) k).2
        registers registers' := by
  intro h
  have htyped : (zeroRegisters.set .r1 (.i32 0x80000000)).Typed := zeroRegisters_typed.set rfl (.i32 _)
  obtain ⟨registers', heffect, hshifts⟩ := h shiftLeftOne noCode tLSLri .r0 .r1 1
    (zeroRegisters.set .r1 (.i32 0x80000000)) zeroMachine (.inl rfl) shiftLeftOne_wellFormed rfl rfl htyped
  have hc := hshifts.c
  cases heffect
  exact absurd hc (by decide)

end Shifts

end Avatar.Translator
