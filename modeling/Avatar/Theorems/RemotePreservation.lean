import Avatar.Lib.SsaRemote
import Avatar.Theorems.Preservation

/-! The instrumented function, whose handlers access a remote memory, against the original program on that memory. Where the
    emitted function stores the words of a `PUSH` in the reverse order, the instrumented one stores them to the memory of
    the emulator, so the remote memory never gets them. -/

namespace Avatar.Translator
open Bytes Traversal
open Avatar.Translator.Graph

/-- Memory holds the words that are pushed already. -/
def Holds (s : Thumb.State) (registers : List Thumb.Register) : Prop :=
  s.memory.store (s.registers .sp - 4 * BitVec.ofNat 32 registers.length) (s.bytes registers) = s.memory

variable {source : Source} {function : Nat} {g : Graph} {start machine : Machine} {pc : BitVec 64} {registers : Registers}
  {σ : Type} {handlers : Handlers σ} {remote : σ → WordMemory 32} {blocks : List CallBlock}
  {m : Ssa.CallMachine (Nat × Argument) σ} {s : Thumb.State}

/-! ### The code of an instruction -/

section Code
variable {inst : MCInst} {memory : CodeMemory} {translator : MCInst → EmitM Successor} {successor : Successor}
  {e : Emission} {code' : List CallInstr}

theorem silent_of_opcode (hop : inst.opcode ∉ [.tLDRi, .tLDRHi, .tSTRi, .tSTRHi, .tPUSH])
    (htranslator : instructionTranslator memory inst.opcode = some translator) : Silent translator := by
  generalize inst.opcode = opcode at hop htranslator
  cases opcode <;> cases htranslator
  case tLDRpciASM => exact silent_tLDRpciASM memory
  case tCMPr => exact silent_tCMPr
  case tBcc => exact silent_tBcc
  case tADDi8 | tADDi3 => exact silent_tADDi8
  case tMOVi8 => exact silent_tMOVi8
  case tLSLri => exact silent_tLSLri
  case tORR | tBIC | tAND => exact silent_logical _
  case tB => exact silent_tB
  case tCMPi8 => exact silent_tCMPi8
  case tSUBi8 => exact silent_tSUBi8
  case tADDrr => exact silent_tADDrr
  case tLSRri => exact silent_tLSRri
  all_goals exact absurd hop (by simp)

theorem replaces_single {instr : Instr} {instr' : CallInstr} (hpass : [instr].mapM runOnInstruction = some code')
    (hinstr : runOnInstruction instr = some instr') (h : Ssa.Replaces handlers remote registers instr instr') :
    List.Forall₂ (Ssa.Replaces handlers remote registers) [instr] code' := by
  rw [List.mapM_cons, hinstr, List.mapM_nil] at hpass
  cases hpass
  exact .cons h .nil

/-- The instrumented code of every instruction but `PUSH` does on the remote memory what its code does. -/
theorem replaces_code (hforward : handlers.Forward remote) (hwellFormed : WellFormed inst.opcode inst.operands)
    (hne : inst.opcode ≠ .tPUSH) (htranslator : instructionTranslator memory inst.opcode = some translator)
    (he : translator inst ⟨[], initialValues⟩ = some (successor, e)) (hpass : e.code.mapM runOnInstruction = some code')
    (htyped : registers.Typed) : List.Forall₂ (Ssa.Replaces handlers remote registers) e.code code' := by
  by_cases hop : inst.opcode ∈ [.tLDRi, .tLDRHi, .tSTRi, .tSTRHi, .tPUSH]
  · generalize inst.opcode = opcode at hwellFormed hne htranslator hop
    cases opcode
    case tLDRi =>
      cases htranslator
      obtain ⟨d, n, imm, hoperands, -, hn⟩ := exists_transferred hwellFormed
      cases (emission_tLDRi hoperands hn).symm.trans he
      exact replaces_single hpass (runOnInstruction_load rfl)
        (Ssa.replaces_read32 hforward _ fun results => ⟨_, eval_elementPtr htyped hn 4 imm results⟩)
    case tLDRHi =>
      cases htranslator
      obtain ⟨d, n, imm, hoperands, -, hn⟩ := exists_transferred hwellFormed
      cases (emission_tLDRHi hoperands hn).symm.trans he
      exact replaces_single hpass (runOnInstruction_load rfl)
        (Ssa.replaces_read16 hforward _ fun results => ⟨_, eval_elementPtr htyped hn 2 imm results⟩)
    case tSTRi =>
      cases htranslator
      obtain ⟨d, n, imm, hoperands, hd, hn⟩ := exists_transferred hwellFormed
      cases (emission_tSTRi hoperands hd hn).symm.trans he
      exact replaces_single hpass (runOnInstruction_store rfl)
        (Ssa.replaces_write32 hforward _ (fun results => ⟨_, eval_elementPtr htyped hn 4 imm results⟩)
          fun results => ⟨_, eval_phi htyped hd results⟩)
    case tSTRHi =>
      cases htranslator
      obtain ⟨d, n, imm, hoperands, hd, hn⟩ := exists_transferred hwellFormed
      cases (emission_tSTRHi hoperands hd hn).symm.trans he
      have hval (results : List (Option (Ssa.Val (Nat × Argument)))) :
          Ssa.Value.eval ⟨registers, results⟩ (.trunc (.phi d)) = some (.i16 ((registers.word d).setWidth 16)) := by
        rw [Ssa.Value.eval, eval_phi htyped hd]
      exact replaces_single hpass (runOnInstruction_store rfl)
        (Ssa.replaces_write16 hforward _ (fun results => ⟨_, eval_elementPtr htyped hn 2 imm results⟩)
          fun results => ⟨_, hval results⟩)
    all_goals simp_all
  · have hnil := (silent_of_opcode hop htranslator).code_eq_nil he
    rw [hnil] at hpass ⊢
    cases hpass
    exact .nil

end Code

/-! ### One block -/

section Step

/-- The block of an instruction, by what its instrumented code does -/
theorem callStep_code (hbuilt : Built source function g.pcs.length g) (hpass : instrumentBlocks g.blocks = some blocks)
    (hpc : pc ∈ g.pcs) (hrange : source.pcRanges.isInRange pc = true) (t : Translation source pc)
    {code' : List CallInstr} (hmediates : Mediates t.inst t.emission.code code')
    {m' : Ssa.CallMachine (Nat × Argument) σ} {pc' : BitVec 64} {machine' : Machine}
    {env : Ssa.Env Register (Nat × Argument)}
    (hrun : Ssa.callExecAll handlers (⟨registers, []⟩, m) code' = some (env, m'))
    (hexecuted : t.Executed g.head registers machine env machine' pc') :
    Ssa.callStep handlers blocks (.running (g.head pc) registers m) = .running (g.head pc') (t.registers env) m' := by
  have hk : g.head pc ≤ g.pcs.length := List.idxOf_lt_length_iff.mpr hpc
  obtain ⟨terminator, hterminator, hexit⟩ := hexecuted.terminator
  have huntouched : Untouched terminator := by
    obtain ⟨_, heq, hend⟩ := Next.exists_terminator (Successor.next_ne_skip t.next_eq) g.head
    cases hterminator.symm.trans heq
    exact untouched_of_isTerminator hend
  have hpc' := hbuilt.target_mem hpc hk (t.piece_eq hrange function) hexecuted.target
  have hblock := getElem?_instrumented hpass (getElem?_head hpc)
    (hbuilt.runOnBasicBlock_inRange hpc hk hrange t hmediates hterminator huntouched)
  obtain ⟨_, hbb', hpass'⟩ := getElem?_mapM hpass (getElem?_head hpc')
  obtain ⟨_, -, rfl⟩ := Option.map_eq_some_iff.mp hpass'
  rw [Ssa.callStep_goto hblock rfl hrun hexit hbb']
  exact congrArg (Ssa.CallState.running (g.head pc') · m') (hbuilt.enter_target hpc hk hrange t hexecuted.target env)

/-- With the remote memory in place of its own, the instrumented function does the same step. -/
theorem view_callStep (hbuilt : Built source function g.pcs.length g) (hconforms : source.disassembler.Conforms)
    (hforward : handlers.Forward remote) (hpass : instrumentBlocks g.blocks = some blocks) (hpc : pc ∈ g.pcs)
    (hrange : source.pcRanges.isInRange pc = true) (t : Translation source pc) (hne : t.inst.opcode ≠ .tPUSH)
    (htyped : registers.Typed) :
    (Ssa.callStep handlers blocks (.running (g.head pc) registers m)).view remote =
      Ssa.step g.blocks (.running (g.head pc) registers (m.view remote)) := by
  have hk : g.head pc ≤ g.pcs.length := List.idxOf_lt_length_iff.mpr hpc
  obtain ⟨code', hmediates⟩ := t.exists_mediates hconforms
  obtain ⟨env, machine', pc', hexecuted⟩ := t.executed hrange htyped (m.view remote) g.head
  have hreplaced := replaces_code hforward (wellFormed_of_decode hconforms t.decode_eq) hne t.translator_eq t.emission_eq
    hmediates.pass htyped
  obtain ⟨m', hrun, rfl⟩ := Ssa.callExecAll_replaced hreplaced rfl hexecuted.code
  obtain ⟨terminator, hterminator, hexit⟩ := hexecuted.terminator
  obtain ⟨p, hp, hcode, -⟩ := hbuilt.linked pc hpc hk
  obtain rfl := Option.some.inj ((t.piece_eq hrange function).symm.trans hp)
  have hbody : (g.block pc).code = t.emission.code ++ [terminator] := hcode.trans (congrArg _ hterminator)
  have hpc' := hbuilt.target_mem hpc hk hp hexecuted.target
  rw [callStep_code hbuilt hpass hpc hrange t hmediates hrun hexecuted, Ssa.step_goto (getElem?_head hpc) hbody
    hexecuted.code hexit (getElem?_head hpc'), hbuilt.enter_target hpc hk hrange t hexecuted.target]
  rfl

/-- The stores of a `PUSH` are no calls, so the remote memory keeps its words. -/
theorem view_callStep_push (handlers : Handlers σ) (remote : σ → WordMemory 32) (m : Ssa.CallMachine (Nat × Argument) σ)
    (hbuilt : Built source function g.pcs.length g) (hconforms : source.disassembler.Conforms)
    (hpass : instrumentBlocks g.blocks = some blocks) (hpc : pc ∈ g.pcs)
    (hrange : source.pcRanges.isInRange pc = true) (t : Translation source pc) {rs : List Thumb.Register}
    (hop : t.inst.opcode = .tPUSH) (hoperands : t.inst.operands = Operand.always ++ (rs.map Register.ofCore).map .reg)
    (hne : rs ≠ []) (htyped : registers.Typed) : t.inst.nextPc ∈ g.pcs ∧ ∃ registers' : Registers, registers'.Typed ∧
      registers' .cpsr = registers .cpsr ∧
      registers'.Agree (registers.set .sp (.i32 (registers.word .sp - 4 * BitVec.ofNat 32 rs.length))) ∧
      (Ssa.callStep handlers blocks (.running (g.head pc) registers m)).view remote =
        .running (g.head t.inst.nextPc) registers' (m.view remote) := by
  have hk : g.head pc ≤ g.pcs.length := List.idxOf_lt_length_iff.mpr hpc
  obtain ⟨env, machine', pc', hexecuted⟩ := t.executed hrange htyped m.machine g.head
  have htranslator : t.translator = tPUSH := by
    have := t.translator_eq
    rw [hop] at this
    exact (Option.some.inj this).symm
  obtain ⟨registers', heffect, hagree⟩ := effect_tPUSH hoperands (mt List.map_eq_nil_iff.mp hne) (fun r hr => by
    obtain ⟨i, -, rfl⟩ := List.mem_map.mp hr
    exact registerType_ofCore i) htyped m.machine
  have hstep : Processor.step source (.running pc registers m.machine) = .running t.inst.nextPc registers'
      (m.machine.pushWords (registers.word .sp) ((rs.map Register.ofCore).map registers.word)) := by
    simp only [Processor.step, hrange, if_true, t.decode_eq, t.translator_eq, htranslator, Option.bind_some, heffect]
  obtain ⟨rfl, rfl, rfl⟩ := Processor.running.inj (hexecuted.step.symm.trans hstep)
  rw [List.length_map] at hagree
  obtain ⟨code', hmediates⟩ := t.exists_mediates hconforms
  have huntouched : ∀ instr ∈ t.emission.code, Untouched instr := by
    obtain ⟨code, hcode, huntouched⟩ := unmarked_tPUSH t.inst _ _ _ (htranslator ▸ t.emission_eq)
    rw [hcode]
    exact huntouched
  obtain rfl := Option.some.inj ((mapM_untouched huntouched).symm.trans hmediates.pass)
  have hrun : Ssa.callExecAll handlers (⟨registers, []⟩, m) (t.emission.code.map .plain) = _ :=
    Ssa.callExecAll_plain ⟨registers, []⟩ m t.emission.code
  rw [hexecuted.code, Option.map_some] at hrun
  refine ⟨hbuilt.target_mem hpc hk (t.piece_eq hrange function) hexecuted.target, _, hexecuted.typed, hexecuted.cpsr,
    hagree, ?_⟩
  rw [callStep_code hbuilt hpass hpc hrange t hmediates hrun hexecuted]
  exact congrArg (fun members => Ssa.State.running _ _ ⟨remote m.state, members⟩) hexecuted.members

theorem view_callStep_exit (handlers : Handlers σ) (remote : σ → WordMemory 32)
    (hbuilt : Built source function g.pcs.length g) (hpass : instrumentBlocks g.blocks = some blocks) (hpc : pc ∈ g.pcs)
    (hrange : source.pcRanges.isInRange pc = false) (htyped : registers.Typed)
    (hcpsr : registers .cpsr = some (.i32 (start.register function 15))) (hmembers : m.machine.members = start.members) :
    ∃ machine', (Ssa.callStep handlers blocks (.running (g.head pc) registers m)).view remote = .returned machine' ∧
      Returned function start registers (m.view remote) machine' := by
  have hk : g.head pc ≤ g.pcs.length := List.idxOf_lt_length_iff.mpr hpc
  obtain ⟨machine', hstep, h⟩ := hbuilt.step_exit hpc hk hrange htyped hcpsr hmembers
  have hblock := getElem?_head hpc
  have hblock' := getElem?_instrumented hpass hblock (runOnBasicBlock_untouched (hbuilt.untouched_exit hpc hk hrange))
  refine ⟨⟨remote m.state, machine'.members⟩, ?_, rfl, h.others, h.members, h.flagN, h.flagZ, h.flagC, h.flagV, h.cpsr⟩
  rw [Ssa.callStep_plain hblock hblock' (phis_instrumented hpass), hstep]
  rfl

end Step

/-! ### Runs -/

section Runs

/-- The invariant of a run, with the remote memory in place of that of the machine -/
theorem matches_view_step (hbuilt : Built source function g.pcs.length g) (hconforms : source.disassembler.Conforms)
    (hascending : source.disassembler.Ascending) (hforward : handlers.Forward remote)
    (hok : ∀ pc ∈ g.pcs, source.DecodesInRanges pc) (hpass : instrumentBlocks g.blocks = some blocks) {cs : CallState σ}
    {p : Processor} (h : Matches function g start p (cs.view remote)) :
    ∃ p', Matches function g start p' ((Ssa.callStep handlers blocks cs).view remote) := by
  cases cs with
  | running b phi m =>
    cases h with
    | @running pc _ _ hpc htyped hcpsr hmembers =>
      cases hrange : source.pcRanges.isInRange pc with
      | true =>
        obtain ⟨t⟩ := (hok pc hpc hrange).translation hconforms
        by_cases hop : t.inst.opcode = .tPUSH
        · have hwellFormed := wellFormed_of_decode hconforms t.decode_eq
          obtain ⟨rs, hoperands, hne, -⟩ :=
            exists_rs hop (hop ▸ hwellFormed) (pushed_of_decode hascending t.decode_eq hop)
          obtain ⟨hpc', registers', htyped', hcpsr', -, hstep⟩ := view_callStep_push handlers remote m hbuilt hconforms
            hpass hpc hrange t hop hoperands hne htyped
          rw [hstep]
          exact ⟨_, .running hpc' htyped' (hcpsr'.trans hcpsr) hmembers⟩
        · rw [view_callStep hbuilt hconforms hforward hpass hpc hrange t hop htyped]
          exact ⟨_, (Matches.running hpc htyped hcpsr hmembers).step hbuilt hconforms hok⟩
      | false =>
        obtain ⟨machine', hstep, hreturned⟩ :=
          view_callStep_exit handlers remote hbuilt hpass hpc hrange htyped hcpsr hmembers
        rw [hstep]
        exact ⟨.stopped pc phi _, .stopped hreturned⟩
  | returned m => exact ⟨p, h⟩
  | undefined => cases h

/-- Only for a `PUSH` the condition is another one. -/
theorem faithfulAt_iff {inst : MCInst} {instr : Thumb.Instr} (hfetch : source.fetch (s.pc.setWidth 64) = some (inst, instr))
    (h : ∀ rs, instr ≠ .push rs) : source.FaithfulAt Reversible s ↔ source.FaithfulAt Holds s := by
  have hkept (stored : List Thumb.Register → Prop) (stored' : List Thumb.Register → Prop) :
      Kept s (inst.embedded source.memory) stored instr ↔ Kept s (inst.embedded source.memory) stored' instr := by
    cases instr with
    | push rs => exact absurd rfl (h rs)
    | _ => exact Iff.rfl
  rw [faithfulAt_of_fetch hfetch, faithfulAt_of_fetch hfetch]
  exact and_congr_left fun _ => hkept _ _

/-- A `PUSH` in the ranges -/
theorem shows_view_push (hbuilt : Built source function g.pcs.length g) (hconforms : source.disassembler.Conforms)
    (hascending : source.disassembler.Ascending) (hpass : instrumentBlocks g.blocks = some blocks) (hpc : pc ∈ g.pcs)
    (hlt : pc.toNat < 2 ^ 32) (hrange : source.pcRanges.isInRange pc = true) (t : Translation source pc)
    (hop : t.inst.opcode = .tPUSH) (htyped : registers.Typed) :
    Shows source function g.units ((Ssa.callStep handlers blocks (.running (g.head pc) registers m)).view remote)
      (source.execute (architectural registers (m.view remote) pc)) ↔
        source.FaithfulAt Holds (architectural registers (m.view remote) pc) := by
  have hwellFormed := wellFormed_of_decode hconforms t.decode_eq
  obtain ⟨rs, hoperands, hne, hrs, hthumb⟩ :=
    exists_rs hop (hop ▸ hwellFormed) (pushed_of_decode hascending t.decode_eq hop)
  obtain ⟨hpc', registers', -, -, hagree, hstep⟩ :=
    view_callStep_push handlers remote m hbuilt hconforms hpass hpc hrange t hop hoperands hne htyped
  let s := architectural registers (m.view remote) pc
  let bottom := s.registers .sp - 4 * BitVec.ofNat 32 rs.length
  have hfetch : source.fetch (s.pc.setWidth 64) = some (t.inst, .push rs) :=
    (fetch_architectural hlt).trans (fetch_translation hrange t hthumb)
  have hnext : (architectural registers' (m.view remote) t.inst.nextPc).pc =
      Thumb.Instr.next s (t.inst.size.setWidth 32) (.push rs) :=
    setWidth_wideNext hthumb (congrArg (BitVec.setWidth 32) (pc_of_decode t.decode_eq).symm)
  have hstate : architectural registers' (m.view remote) pc = s.write .sp bottom := by
    rw [hagree.architectural, show Register.sp = .ofCore .sp from rfl, architectural_set]
    rfl
  rw [hstep, Shows.running_iff hpc', execute_of_fetch hfetch, faithfulAt_of_fetch hfetch Holds, Faithful, Kept, Holds]
  refine and_congr_left fun _ => (Thumb.Instr.step_eq_iff hnext).trans ?_
  show architectural registers' (m.view remote) pc = _ ↔ _
  rw [hstate, Thumb.Instr.execute, hrs]
  constructor
  · intro h
    exact (congrArg Thumb.State.memory h).symm
  · intro h
    rw [Thumb.State.store, h]

/-- The instrumented function keeps up with one instruction of the original program on the remote memory if and only if
    that is translated faithfully. -/
theorem shows_view_step_iff (hbuilt : Built source function g.pcs.length g) (hconforms : source.disassembler.Conforms)
    (hascending : source.disassembler.Ascending) (hforward : handlers.Forward remote)
    (hok : ∀ pc ∈ g.pcs, source.DecodesInRanges pc) (hpass : instrumentBlocks g.blocks = some blocks) {cs : CallState σ}
    {p : Processor} (hmatches : Matches function g start p (cs.view remote))
    (h : Shows source function g.units (cs.view remote) s) :
    Shows source function g.units ((Ssa.callStep handlers blocks cs).view remote) (source.execute s) ↔
      source.FaithfulAt Holds s := by
  cases cs with
  | running b phi m =>
    have hview := hmatches
    cases hmatches with
    | @running pc _ _ hpc htyped hcpsr hmembers =>
      obtain ⟨rfl, hlt⟩ := (Shows.running_iff hpc).mp h
      cases hrange : source.pcRanges.isInRange pc with
      | true =>
        obtain ⟨t⟩ := (hok pc hpc hrange).translation hconforms
        by_cases hop : t.inst.opcode = .tPUSH
        · exact shows_view_push hbuilt hconforms hascending hpass hpc hlt hrange t hop htyped
        · have hwellFormed := wellFormed_of_decode hconforms t.decode_eq
          obtain ⟨instr, hthumb, -⟩ := translates hwellFormed (pushed_of_decode hascending t.decode_eq) t.translator_eq
            htyped (m.view remote)
          have hfetch : source.fetch ((architectural phi (m.view remote) pc).pc.setWidth 64) = some (t.inst, instr) :=
            (fetch_architectural hlt).trans (fetch_translation hrange t hthumb)
          have hnotPush : ∀ rs, instr ≠ .push rs := fun rs heq => hop (opcode_of_push (heq ▸ hthumb))
          rw [view_callStep hbuilt hconforms hforward hpass hpc hrange t hop htyped, ← faithfulAt_iff hfetch hnotPush]
          exact Shows.step_iff hbuilt hconforms hascending hok hview h
      | false =>
        obtain ⟨machine', hstep, hreturned⟩ :=
          view_callStep_exit handlers remote hbuilt hpass hpc hrange htyped hcpsr hmembers
        obtain ⟨hexecute, hfaithful⟩ := over_of_not_inRange phi (m.view remote) hlt hrange Holds
        rw [hstep, hexecute, ← architectural_returned hreturned]
        rw [← architectural_returned hreturned] at hfaithful
        exact iff_of_true (.returned hrange hlt) hfaithful
  | returned m =>
    have hview := h
    cases h with
    | returned hrange hlt =>
      obtain ⟨hexecute, hfaithful⟩ := over_of_not_inRange _ _ hlt hrange Holds
      rw [hexecute]
      exact iff_of_true hview hfaithful
  | undefined => cases h

/-- The instrumented function has just entered its first unit. -/
theorem view_runOf_one (hbuilt : Built source function g.pcs.length g) (hpass : instrumentBlocks g.blocks = some blocks)
    (state : σ) : (runOf handlers blocks machine state 1).view remote =
      .running (g.head source.entryPc) (structRegisters function ⟨remote state, machine.members⟩)
        ⟨remote state, machine.members⟩ := by
  have hentry : runOf handlers blocks machine state 1 = _ := hbuilt.callStep_entry hpass _
  rw [hentry]
  rfl

theorem shows_view_iff (hbuilt : Built source function g.pcs.length g) (hconforms : source.disassembler.Conforms)
    (hascending : source.disassembler.Ascending) (hforward : handlers.Forward remote)
    (hok : ∀ pc ∈ g.pcs, source.DecodesInRanges pc) (hpass : instrumentBlocks g.blocks = some blocks)
    (hlt : source.entryPc.toNat < 2 ^ 32) (state : σ) (n : Nat) :
    (∀ k ≤ n, Shows source function g.units ((runOf handlers blocks machine state (k + 1)).view remote)
      (source.execute^[k] (source.start function ⟨remote state, machine.members⟩))) ↔
    ∀ k < n, source.FaithfulAt Holds (source.execute^[k] (source.start function ⟨remote state, machine.members⟩)) := by
  let start : Machine := ⟨remote state, machine.members⟩
  have hentry := List.mem_of_getElem? hbuilt.explored.first
  have hsucc (k : Nat) : runOf handlers blocks machine state (k + 2) =
      Ssa.callStep handlers blocks (runOf handlers blocks machine state (k + 1)) := Function.iterate_succ_apply' ..
  have hmatches (k : Nat) :
      ∃ p, Matches function g start p ((runOf handlers blocks machine state (k + 1)).view remote) := by
    induction k with
    | zero =>
      rw [view_runOf_one hbuilt hpass]
      exact ⟨_, .running hentry (structRegisters_typed function start) rfl rfl⟩
    | succ k ih =>
      obtain ⟨p, hp⟩ := ih
      rw [hsucc]
      exact matches_view_step hbuilt hconforms hascending hforward hok hpass hp
  refine Transition.forall_le_iff ?_ (fun k hk => ?_) n
  · rw [view_runOf_one hbuilt hpass]
    exact (Shows.running_iff hentry).mpr ⟨rfl, hlt⟩
  · obtain ⟨p, hp⟩ := hmatches k
    rw [hsucc, Function.iterate_succ_apply' source.execute k]
    exact shows_view_step_iff hbuilt hconforms hascending hforward hok hpass hp hk

end Runs

/-- What the instrumentation of a call does to the meaning of its program: with any handlers that access a remote memory,
    up to the `n`th instruction each block leaves the registers, flags and remote memory that the original instruction
    leaves, exactly as long as no instruction meets a case in which its translation differs. -/
def PreservesRemotely (call : Call) (c : Cache) : Prop :=
  ∃ done blocks, instrumentMemoryAccess call c = some done ∧ done.failure = none ∧
    instrumentBlocks done.wrapper.blocks = some blocks ∧
    ∀ (σ : Type) (handlers : Handlers σ) (remote : σ → WordMemory 32) (machine : Machine) (state : σ) (n : Nat),
      handlers.Forward remote →
      ((∀ k ≤ n, Shows call.source call.function done.wrapper.units
        ((runOf handlers blocks machine state (k + 1)).view remote)
        (call.source.execute^[k] (call.source.start call.function ⟨remote state, machine.members⟩))) ↔
      ∀ k < n, call.source.FaithfulAt Holds
        (call.source.execute^[k] (call.source.start call.function ⟨remote state, machine.members⟩)))

/-- After calls that have left nothing in the queue, at the address of a function that has no living units and no stale key
    that the call looks up -/
theorem preserves_remotely (call : Call) {c : Cache} (hfresh : Fresh c call)
    (hconforms : call.source.disassembler.Conforms) (hascending : call.source.disassembler.Ascending)
    (hentry : call.source.pcRanges.isInRange call.source.entryPc = true) (hlt : call.source.entryPc.toNat < 2 ^ 32)
    (hok : ∀ pc, Worklist.Reachable (successors call.source) call.source.entryPc pc → call.source.DecodesInRanges pc) :
    PreservesRemotely call c := by
  obtain ⟨done, g, blocks, hdone, hfailure, hunits, hblocks, hbuilt, hok', hpass⟩ :=
    exists_instrumented call hconforms hentry hok
  have hview := independent_of_fresh hfresh
  rw [Independent, hdone, Option.map_some, Option.map_eq_some_iff] at hview
  obtain ⟨done', hdone', hview⟩ := hview
  simp only [Done.view, Prod.mk.injEq] at hview
  obtain ⟨-, hfailure', hunits', hblocks', -⟩ := hview
  refine ⟨done', blocks, hdone', hfailure'.trans hfailure, ?_, fun σ handlers remote machine state n hforward => ?_⟩
  · rw [hblocks', hblocks, hpass]
  · rw [hunits', hunits]
    exact shows_view_iff hbuilt hconforms hascending hforward hok' hpass hlt state n

/-- Handlers whose state is the remote memory -/
example : Ssa.Handlers.Forward (κ := Nat × Argument) ⟨fun a n m s => (BitVec.ofNat 32 (ofLE (s.load a n.toNat)), m, s),
    fun a n v m s => (m, s.store a (toLE n.toNat v.toNat))⟩ id where
  read16 _ _ _ := BitVec.setWidth_ofNat_of_le (by decide) _
  read32 _ _ _ := rfl
  read_remote _ _ _ _ := rfl
  read_members _ _ _ _ := rfl
  write16 _ _ _ _ := rfl
  write32 _ _ _ _ := rfl
  write_members _ _ _ _ _ := rfl

theorem pushLoad_ascending : pushLoad.disassembler.Ascending := by
  intro memory pc hstatus hop
  simp only [pushLoad] at hop ⊢
  split
  · exact ⟨[.r0], rfl, by decide⟩
  · rename_i hpush
    rw [if_neg hpush] at hop
    split at hop <;> cases hop

theorem preserves_remotely_pushLoad : PreservesRemotely ⟨pushLoad, 0, fun _ => .compiled⟩ Cache.empty :=
  preserves_remotely ⟨pushLoad, 0, fun _ => .compiled⟩ ⟨rfl, rfl, fun _ _ => List.not_mem_nil⟩ pushLoad_conforms
    pushLoad_ascending (by decide) (by decide) fun _ => pushLoad_decodesInRanges

end Avatar.Translator
