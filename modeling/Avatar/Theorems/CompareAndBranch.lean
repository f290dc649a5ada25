import Avatar.Translator.Effects

/-! A translated comparison and the conditional branches behind it. The comparison sets the flags of a subtraction, the
    loads, stores and `PUSH` leave them alone, and the branch evaluates its condition on them, so it is taken if and
    only if the condition holds between the operands that were compared. -/

namespace Avatar.Translator

/-! ### The instructions -/

/-- The number of a condition in the namespace `ARMCC`. -/
def condCode : Condition → Int
  | .eq => 0
  | .ne => 1
  | .hs => 2
  | .lo => 3
  | .mi => 4
  | .pl => 5
  | .vs => 6
  | .vc => 7
  | .hi => 8
  | .ls => 9
  | .ge => 10
  | .lt => 11
  | .gt => 12
  | .le => 13

/-- The words that an instruction compares. -/
def MCInst.compared (inst : MCInst) (registers : Registers) : Option (BitVec 32 × BitVec 32) :=
  match inst.opcode, inst.operands with
  | .tCMPr, .reg n :: .reg m :: _ => some (registers.word n, registers.word m)
  | .tCMPi8, .reg n :: .imm imm :: _ => some (registers.word n, BitVec.ofInt 32 imm)
  | .tSUBi8, _ :: _ :: .reg n :: .imm imm :: _ => some (registers.word n, BitVec.ofInt 32 imm)
  | _, _ => none

/-- The register that an instruction writes the difference to. -/
def MCInst.difference (inst : MCInst) : Option Register :=
  match inst.opcode, inst.operands with
  | .tSUBi8, .reg d :: _ => some d
  | _, _ => none

/-- A load, a store or a `PUSH`, with operands as the disassembler lays them out. -/
structure MCInst.IsTransfer (inst : MCInst) : Prop where
  opcode : inst.opcode ∈ [.tLDRi, .tLDRHi, .tSTRi, .tSTRHi, .tPUSH]
  wellFormed : WellFormed inst.opcode inst.operands

/-- The translated instructions, one after the other. -/
def runAll (memory : CodeMemory) (insts : List MCInst) (s : Registers × Machine) : Option (Registers × Machine) :=
  insts.foldlM (fun s inst => do
    let translator ← instructionTranslator memory inst.opcode
    let (_, registers, m) ← effect translator inst s.1 s.2
    return (registers, m)) s

/-- Whether the conditional branch that `tBcc` emits is taken. -/
def branchTaken (inst : MCInst) (registers : Registers) : Option Bool := do
  let (successor, e) ← tBcc inst ⟨[], initialValues⟩
  match ← successor.next e.values inst with
  | .branch cond _ _ =>
    match cond.eval ⟨registers, []⟩ with
    | some (.i1 taken) => some taken
    | _ => none
  | _ => none

/-! ### Flags -/

structure Registers.HasFlags (registers : Registers) (flags : Flags) : Prop where
  z : registers .flagZ = some (.i1 flags.z)
  n : registers .flagN = some (.i1 flags.n)
  c : registers .flagC = some (.i1 flags.c)
  v : registers .flagV = some (.i1 flags.v)

def flagRegisters : List Register := [.flagZ, .flagN, .flagC, .flagV]

section Comparison
variable {inst : MCInst} {translator : MCInst → EmitM Successor}
  {registers registers' : Registers} {m : Machine} {flags : Flags} {a b : BitVec 32}

theorem Registers.HasFlags.congr (h : registers.HasFlags flags)
    (hkept : ∀ id ∈ flagRegisters, registers' id = registers id) : registers'.HasFlags flags where
  z := (hkept .flagZ (by simp [flagRegisters])).trans h.z
  n := (hkept .flagN (by simp [flagRegisters])).trans h.n
  c := (hkept .flagC (by simp [flagRegisters])).trans h.c
  v := (hkept .flagV (by simp [flagRegisters])).trans h.v

/-- The condition of a branch is evaluated on the flags. -/
theorem eval_getCondition (h : registers.HasFlags flags) (cond : Condition) :
    ∃ val, getCondition initialValues (BitVec.ofInt 32 (condCode cond)) = some (some val) ∧
      val.eval ⟨registers, []⟩ = some (.i1 (cond.holds flags)) := by
  cases cond
  case eq => exact ⟨_, rfl, h.z⟩
  case hs => exact ⟨_, rfl, h.c⟩
  case mi => exact ⟨_, rfl, h.n⟩
  case vs => exact ⟨_, rfl, h.v⟩
  all_goals
    refine ⟨_, rfl, ?_⟩
    simp only [Ssa.Value.eval, h.z, h.n, h.c, h.v]
    rfl

/-- A branch is taken if and only if its condition holds on the flags. -/
theorem branchTaken_eq (h : registers.HasFlags flags) {offset : Int} {cond : Condition}
    (hoperands : inst.operands = [.imm offset, .imm (condCode cond), .reg .cpsr]) :
    branchTaken inst registers = some (cond.holds flags) := by
  obtain ⟨val, hval, heval⟩ := eval_getCondition h cond
  simp only [branchTaken, emission_tBcc hoperands, Successor.next, hval, Option.bind_eq_bind, Option.bind_some,
    Option.join_some, Option.pure_def, heval]

/-! ### The comparison -/

/-- What a comparison does. -/
structure ComparesTo (inst : MCInst) (a b : BitVec 32) (registers : Registers) : Prop where
  typed : registers.Typed
  flags : registers.HasFlags (Flags.ofSub a b)
  difference : ∀ d, inst.difference = some d → registers d = some (.i32 (a - b))

theorem comparesTo_of_agree {start : Registers} (htyped : start.Typed)
    (h : registers'.Agree (start.setFlags (Flags.ofSub a b)))
    (hdifference : ∀ d, inst.difference = some d → registers' d = some (.i32 (a - b))) :
    ComparesTo inst a b registers' :=
  ⟨h.typed (htyped.setFlags _), ⟨h .flagZ rfl, h .flagN rfl, h .flagC rfl, h .flagV rfl⟩, hdifference⟩

theorem effect_comparison (memory : CodeMemory) (hopcode : inst.opcode ∈ [.tCMPr, .tCMPi8, .tSUBi8])
    (hwellFormed : WellFormed inst.opcode inst.operands) (hcompared : inst.compared registers = some (a, b))
    (htyped : registers.Typed) (m : Machine) : ∃ translator registers',
      instructionTranslator memory inst.opcode = some translator ∧
        effect translator inst registers m = some (inst.nextPc, registers', m) ∧ ComparesTo inst a b registers' := by
  have hinitial := agree_read_initialValues registers []
  generalize hop : inst.opcode = opcode at hopcode hwellFormed ⊢
  cases opcode
  case tCMPr =>
    obtain ⟨_, _, hoperands, hn, hm⟩ := hwellFormed
    obtain ⟨n, rfl, hn⟩ := hn.exists_reg
    obtain ⟨r, rfl, hr⟩ := hm.exists_reg
    simp only [MCInst.compared, hop, hoperands, List.cons_append, List.nil_append] at hcompared
    cases hcompared
    refine ⟨_, _, rfl, effect_of_values (emission_tCMPr hoperands hn hr) registers m, ?_⟩
    rw [read_compareValues (eval_phi htyped hn []) (eval_phi htyped hr [])]
    exact comparesTo_of_agree htyped (hinitial.setFlags _) (by simp [MCInst.difference, hop])
  case tCMPi8 =>
    obtain ⟨_, _, hoperands, hn, hi⟩ := hwellFormed
    obtain ⟨n, rfl, hn⟩ := hn.exists_reg
    obtain ⟨imm, rfl⟩ := hi.exists_imm
    simp only [MCInst.compared, hop, hoperands, List.cons_append, List.nil_append] at hcompared
    cases hcompared
    refine ⟨_, _, rfl, effect_of_values (emission_tCMPi8 hoperands hn) registers m, ?_⟩
    rw [read_compareValues (eval_phi htyped hn []) (eval_int32 imm)]
    exact comparesTo_of_agree htyped (hinitial.setFlags _) (by simp [MCInst.difference, hop])
  case tSUBi8 =>
    obtain ⟨_, _, _, hoperands, hd, hn, hi⟩ := hwellFormed
    obtain ⟨d, rfl, hd⟩ := hd.exists_reg
    obtain ⟨n, rfl, hn⟩ := hn.exists_reg
    obtain ⟨imm, rfl⟩ := hi.exists_imm
    simp only [MCInst.compared, hop, hoperands, List.cons_append, List.nil_append] at hcompared
    cases hcompared
    have hsub : Ssa.Value.eval ⟨registers, []⟩ (.binary .sub (.phi n) (int32 imm)) =
        some (.i32 (registers.word n - BitVec.ofInt 32 imm)) := by
      rw [Ssa.Value.eval, eval_phi htyped hn, eval_int32]
      rfl
    refine ⟨_, _, rfl, effect_of_values (emission_tSUBi8 hoperands hn) registers m, ?_⟩
    rw [read_compareValues (eval_phi htyped hn []) (eval_int32 imm), Values.read_set hsub]
    refine comparesTo_of_agree (htyped.set (registerType_of_isLow hd).1 (.i32 _)) (hinitial.set.setFlags _) ?_
    -- The destination is not a flag, so the flags do not hide the difference.
    intro d' hd'
    simp only [MCInst.difference, hop, hoperands, List.cons_append, Option.some.injEq] at hd'
    rw [← hd', Registers.setFlags_apply_of_ne (not_mem_flags_of_isLow hd), Registers.set_self]
  all_goals exact absurd hopcode (by simp)

/-! ### Loads, stores and `PUSH` -/

/-- The code of a load, a store or a `PUSH` leaves the values of the flags alone. -/
theorem emission_transfer (memory : CodeMemory) (h : inst.IsTransfer) : ∃ translator e,
    instructionTranslator memory inst.opcode = some translator ∧
      translator inst ⟨[], initialValues⟩ = some (.fallThrough, e) ∧
        ∀ id ∈ flagRegisters, e.values.lookup id = some (.phi id) := by
  have hflags : ∀ id ∈ flagRegisters, initialValues.lookup id = some (.phi id) := by decide
  have hset : ∀ d val, d ∉ flagRegisters → ∀ id ∈ flagRegisters,
      (initialValues.set d val).lookup id = some (.phi id) := fun d val hd id hid => by
    have hne : id ≠ d := fun heq => hd (heq ▸ hid)
    rw [Values.lookup_set_of_ne hne, hflags id hid]
  obtain ⟨hopcode, hwellFormed⟩ := h
  generalize inst.opcode = opcode at hopcode hwellFormed ⊢
  cases opcode
  case tLDRi =>
    obtain ⟨d, n, imm, hoperands, hd, hn⟩ := exists_transferred hwellFormed
    exact ⟨_, _, rfl, emission_tLDRi hoperands hn, hset d _ (not_mem_flags_of_isLow hd)⟩
  case tLDRHi =>
    obtain ⟨d, n, imm, hoperands, hd, hn⟩ := exists_transferred hwellFormed
    exact ⟨_, _, rfl, emission_tLDRHi hoperands hn, hset d _ (not_mem_flags_of_isLow hd)⟩
  case tSTRi =>
    obtain ⟨d, n, imm, hoperands, hd, hn⟩ := exists_transferred hwellFormed
    exact ⟨_, _, rfl, emission_tSTRi hoperands hd hn, hflags⟩
  case tSTRHi =>
    obtain ⟨d, n, imm, hoperands, hd, hn⟩ := exists_transferred hwellFormed
    exact ⟨_, _, rfl, emission_tSTRHi hoperands hd hn, hflags⟩
  case tPUSH =>
    obtain ⟨pushed, hne, hpushed, hoperands⟩ := hwellFormed
    have htype : ∀ r ∈ pushed, registerType r = some .i32 := fun r hr => by
      rcases hpushed r hr with hr | rfl
      · exact (registerType_of_isLow hr).1
      · rfl
    exact ⟨_, _, rfl, emission_tPUSH hoperands hne htype, hset .sp _ (by decide)⟩
  all_goals exact absurd hopcode (by simp)

/-- A transfer keeps the flags. -/
theorem effect_transfer (memory : CodeMemory) (h : inst.IsTransfer) (htyped : registers.Typed) (m : Machine) :
    ∃ translator registers' m',
    instructionTranslator memory inst.opcode = some translator ∧
      effect translator inst registers m = some (inst.nextPc, registers', m') ∧ registers'.Typed ∧
        ∀ id ∈ flagRegisters, registers' id = registers id := by
  obtain ⟨translator, e, htranslator, he, hflags⟩ := emission_transfer memory h
  obtain ⟨_, _, results, he', hty, -⟩ :=
    instructionTranslator_succeeds h.wellFormed htranslator _ Emission.typed_initial
  cases he.symm.trans he'
  obtain ⟨env, m', hrun, hphi, -, henv⟩ := hty.code.execAll htyped (m := m)
  refine ⟨translator, e.values.read env, m', htranslator, ?_, fun id ty hid => ?_, fun id hid => ?_⟩
  · simp only [effect, he, hrun, Option.bind_eq_bind, Option.bind_some]
    rfl
  · obtain ⟨val, hlookup, hval⟩ := hty.values id ty hid
    obtain ⟨x, hx, hxty⟩ := hval.eval henv
    exact ⟨x, by rw [Values.read, hlookup, Option.bind_some, hx], hxty⟩
  · rw [Values.read, hflags id hid, Option.bind_some, Ssa.Value.eval, hphi]

/-! ### Runs -/

theorem runAll_cons {memory : CodeMemory} {insts : List MCInst} {pc : BitVec 64} {m' : Machine}
    (htranslator : instructionTranslator memory inst.opcode = some translator)
    (heffect : effect translator inst registers m = some (pc, registers', m')) :
    runAll memory (inst :: insts) (registers, m) = runAll memory insts (registers', m') := by
  rw [runAll, List.foldlM_cons]
  simp only [htranslator, heffect, Option.bind_eq_bind, Option.bind_some, Option.pure_def]
  rfl

/-- Any number of transfers keep the flags. -/
theorem runAll_transfers (memory : CodeMemory) {insts : List MCInst} (h : ∀ inst ∈ insts, inst.IsTransfer)
    (hflags : registers.HasFlags flags) (htyped : registers.Typed) (m : Machine) :
    ∃ registers' m', runAll memory insts (registers, m) = some (registers', m') ∧ registers'.Typed ∧
      registers'.HasFlags flags := by
  induction insts generalizing registers m with
  | nil => exact ⟨registers, m, rfl, htyped, hflags⟩
  | cons inst insts ih =>
    obtain ⟨translator, registers', m', htranslator, heffect, htyped', hkept⟩ :=
      effect_transfer memory (h inst (List.mem_cons_self ..)) htyped m
    obtain ⟨registers'', m'', hrun, hresult⟩ :=
      ih (fun inst hinst => h inst (List.mem_cons_of_mem _ hinst)) (hflags.congr hkept) htyped' m'
    exact ⟨registers'', m'', (runAll_cons htranslator heffect).trans hrun, hresult⟩

/-- A branch behind a comparison is taken if and only if its condition holds between the words that were compared. -/
theorem compare_and_branch {memory : CodeMemory} {comparison branch : MCInst} {transfers : List MCInst} {offset : Int}
    {cond : Condition}
    (hopcode : comparison.opcode ∈ [.tCMPr, .tCMPi8, .tSUBi8])
    (hwellFormed : WellFormed comparison.opcode comparison.operands)
    (hcompared : comparison.compared registers = some (a, b)) (htransfers : ∀ inst ∈ transfers, inst.IsTransfer)
    (hbranch : branch.operands = [.imm offset, .imm (condCode cond), .reg .cpsr]) (htyped : registers.Typed)
    (m : Machine) :
    (∃ registers', runAll memory [comparison] (registers, m) = some (registers', m) ∧
      ∀ d, comparison.difference = some d → registers' d = some (.i32 (a - b))) ∧
    ∃ registers' m' taken, runAll memory (comparison :: transfers) (registers, m) = some (registers', m') ∧
      branchTaken branch registers' = some taken ∧
      (effect tBcc branch registers' m').map (·.1) = some (if taken then branch.branchPc offset else branch.nextPc) ∧
      (taken = true ↔ cond.Compares a b) := by
  obtain ⟨translator, registers', htranslator, heffect, hresult⟩ :=
    effect_comparison memory hopcode hwellFormed hcompared htyped m
  obtain ⟨registers'', m', hrun, -, hflags⟩ := runAll_transfers memory htransfers hresult.flags hresult.typed m
  refine ⟨⟨registers', runAll_cons htranslator heffect, hresult.difference⟩, registers'', m', _,
    (runAll_cons htranslator heffect).trans hrun, branchTaken_eq hflags hbranch, ?_, cond.holds_ofSub a b⟩
  obtain ⟨val, hval, heval⟩ := eval_getCondition hflags cond
  simp only [effect, emission_tBcc hbranch, Ssa.execAll, List.foldlM_nil, Successor.nextPc, hval, heval,
    Option.bind_eq_bind, Option.bind_some, Option.join_some, Option.pure_def, Option.map_some]

/-- `CMP r0, #1` -/
def compareOne : MCInst := ⟨.tCMPi8, [.reg .r0, .imm 1] ++ Operand.always, 0, 2⟩

theorem compareOne_wellFormed : WellFormed compareOne.opcode compareOne.operands := ⟨_, _, rfl, rfl, trivial⟩

/-- `STR r0, [r1]` -/
def storeWord : MCInst := ⟨.tSTRi, [.reg .r0, .reg .r1, .imm 0] ++ Operand.always, 2, 2⟩

theorem storeWord_isTransfer : storeWord.IsTransfer := ⟨by simp [storeWord], _, _, _, rfl, rfl, rfl, trivial⟩

/-- A `BLT` back to the comparison. -/
def branchLess : MCInst := ⟨.tBcc, [.imm (-8), .imm 11, .reg .cpsr], 4, 2⟩

theorem compare_and_branch_less :
    (∃ registers', runAll noCode [compareOne] (zeroRegisters, zeroMachine) = some (registers', zeroMachine) ∧
      ∀ d, compareOne.difference = some d → registers' d = some (.i32 (0 - 1))) ∧
    ∃ registers' m' taken, runAll noCode [compareOne, storeWord] (zeroRegisters, zeroMachine) = some (registers', m') ∧
      branchTaken branchLess registers' = some taken ∧
      (effect tBcc branchLess registers' m').map (·.1) =
        some (if taken then branchLess.branchPc (-8) else branchLess.nextPc) ∧
      (taken = true ↔ Condition.lt.Compares (0 : BitVec 32) 1) :=
  compare_and_branch (by simp [compareOne]) compareOne_wellFormed rfl
    (fun _ h => List.mem_singleton.mp h ▸ storeWord_isTransfer) rfl zeroRegisters_typed zeroMachine

end Comparison

end Avatar.Translator
