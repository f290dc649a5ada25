import Avatar.Theorems.Independence
import Avatar.Theorems.Simulation
import Avatar.Translator.Accesses

/-! With the option `instrument_memory_access`, the accesses to memory of the original instructions are the calls of
    the handlers, one by one, as long as no `PUSH` is executed: its stores have another mark than the one that
    the pass looks for. -/

namespace Avatar.Translator
open Traversal
open Ssa (Access)

/-! ### The blocks of the function -/

theorem wellFormed_of_decode {source : Source} {pc : BitVec 64} {inst : MCInst} (hconforms : source.disassembler.Conforms)
    (h : decode source pc = .ok (some inst)) : WellFormed inst.opcode inst.operands := by
  rw [decode] at h
  split at h
  · split at h
    · cases h
      trivial
    · cases h
  · cases h
  · rename_i hstatus
    cases h
    exact hconforms _ _ hstatus

theorem Translation.exists_mediates {source : Source} {pc : BitVec 64} (t : Translation source pc)
    (hconforms : source.disassembler.Conforms) : ∃ code', Mediates t.inst t.emission.code code' :=
  Translator.exists_mediates (wellFormed_of_decode hconforms t.decode_eq) t.translator_eq t.emission_eq

theorem runOnInstruction_typed {results : List (Option Ssa.Ty)} {instr : Instr} {instr' : CallInstr}
    {ty : Option Ssa.Ty} (h : instr.HasType registerType results ty) (hpass : runOnInstruction instr = some instr') :
    instr'.HasType registerType results ty := by
  have hinstr := h
  cases h with
  | load16 hptr | load32 hptr =>
    rw [runOnInstruction] at hpass
    split at hpass
    · obtain ⟨size, -, rfl⟩ := Option.map_eq_some_iff.mp hpass
      exact .read hptr
    · cases hpass
      exact .plain hinstr
  | store16 hval hptr | store32 hval hptr =>
    rw [runOnInstruction] at hpass
    split at hpass
    · obtain ⟨size, -, rfl⟩ := Option.map_eq_some_iff.mp hpass
      exact .write hptr hval
    · cases hpass
      exact .plain hinstr

theorem mapM_typed {results : List (Option Ssa.Ty)} {code : List Instr} {code' : List CallInstr}
    (h : Ssa.CodeHasType registerType code results) (hpass : code.mapM runOnInstruction = some code') :
    Ssa.CallCodeHasType registerType code' results := by
  induction h generalizing code' with
  | nil =>
    cases hpass
    exact .nil
  | snoc _ hinstr ih =>
    rw [List.mapM_append] at hpass
    obtain ⟨body, hbody, hpass⟩ := Option.bind_eq_some_iff.mp hpass
    obtain ⟨last, hlast, hpass⟩ := Option.bind_eq_some_iff.mp hpass
    cases hpass
    rw [mapM_eq_some_iff] at hlast
    cases hlast with
    | cons hinstr' hnil =>
      cases hnil
      exact (ih hbody).snoc (runOnInstruction_typed hinstr hinstr')

theorem runOnBasicBlock_untouched {bb : BasicBlock} (h : ∀ instr ∈ bb.code, Untouched instr) :
    runOnBasicBlock bb = some ⟨bb.phis, bb.code.map .plain⟩ := by
  rw [runOnBasicBlock, mapM_untouched h]
  rfl

namespace Graph
variable {source : Source} {function k : Nat} {g : Graph} {pc : BitVec 64}

theorem Built.untouched_entry (h : Built source function k g) : ∀ instr ∈ g.entryCode, Untouched instr := by
  intro instr hi
  rw [h.entryCode, loadCode] at hi
  rcases List.mem_append.mp hi with hi | hi
  · rcases List.mem_append.mp hi with hi | hi
    · rcases List.mem_cons.mp hi with rfl | hi
      · exact untouched_load (by simp [translatedMemoryAccess])
      · rw [List.mem_singleton.mp hi]
        exact untouched_load (by simp [translatedMemoryAccess])
    · obtain ⟨_, -, rfl⟩ := List.mem_map.mp hi
      exact untouched_load (by simp [translatedMemoryAccess])
  · rw [List.mem_singleton.mp hi]
    exact untouched_of_isTerminator rfl

theorem Built.untouched_exit (h : Built source function k g) (hpc : pc ∈ g.pcs) (hk : g.head pc ≤ k)
    (hrange : source.pcRanges.isInRange pc = false) : ∀ instr ∈ (g.block pc).code, Untouched instr := by
  intro instr hi
  rw [h.code_exit hpc hk hrange, exitCode] at hi
  rcases List.mem_append.mp hi with hi | hi
  · obtain ⟨_, -, rfl⟩ := List.mem_map.mp hi
    exact untouched_store (by simp [translatedMemoryAccess])
  · rw [List.mem_singleton.mp hi]
    exact untouched_of_isTerminator rfl

theorem Built.runOnBasicBlock_inRange (h : Built source function k g) (hpc : pc ∈ g.pcs) (hk : g.head pc ≤ k)
    (hrange : source.pcRanges.isInRange pc = true) (t : Translation source pc) {code' : List CallInstr}
    (hmediates : Mediates t.inst t.emission.code code') {terminator : Instr}
    (hterminator : t.next.terminator g.head = [terminator]) (huntouched : Untouched terminator) :
    runOnBasicBlock (g.block pc) = some ⟨(g.block pc).phis, code' ++ [.plain terminator]⟩ := by
  obtain ⟨p, hp, hcode, -⟩ := h.linked pc hpc hk
  obtain rfl := Option.some.inj ((t.piece_eq hrange function).symm.trans hp)
  have hbody : (g.block pc).code = t.emission.code ++ [terminator] := hcode.trans (congrArg _ hterminator)
  rw [runOnBasicBlock, hbody, List.mapM_append, hmediates.pass, List.mapM_cons, huntouched, List.mapM_nil]
  rfl

/-- No assertion of the pass fails. -/
theorem Built.exists_instrumentBlocks (h : Built source function g.pcs.length g)
    (hconforms : source.disassembler.Conforms) (hok : ∀ pc ∈ g.pcs, source.DecodesInRanges pc) :
    ∃ blocks, instrumentBlocks g.blocks = some blocks := by
  refine exists_mapM_some fun bb hbb => ?_
  rcases List.mem_cons.mp hbb with rfl | hbb
  · exact ⟨_, runOnBasicBlock_untouched h.untouched_entry⟩
  · obtain ⟨pc, hpc, rfl⟩ := List.mem_map.mp hbb
    have hk : g.head pc ≤ g.pcs.length := List.idxOf_lt_length_iff.mpr hpc
    cases hrange : source.pcRanges.isInRange pc with
    | true =>
      obtain ⟨t⟩ := (hok pc hpc hrange).translation hconforms
      obtain ⟨code', hmediates⟩ := t.exists_mediates hconforms
      obtain ⟨terminator, hterminator, hend⟩ := Next.exists_terminator
        (Successor.next_ne_skip t.next_eq) g.head
      exact ⟨_, h.runOnBasicBlock_inRange hpc hk hrange t hmediates hterminator (untouched_of_isTerminator hend)⟩
    | false => exact ⟨_, runOnBasicBlock_untouched (h.untouched_exit hpc hk hrange)⟩

/-! ### One block -/

section Step
variable {σ : Type} {handlers : Ssa.Handlers (Nat × Argument) σ} {blocks : List CallBlock}
  {registers : Registers} {m : Ssa.CallMachine (Nat × Argument) σ}

theorem getElem?_instrumented (hpass : instrumentBlocks g.blocks = some blocks) {b : Nat} {bb : BasicBlock}
    {bb' : CallBlock} (hb : g.blocks[b]? = some bb) (hrun : runOnBasicBlock bb = some bb') :
    blocks[b]? = some bb' := by
  obtain ⟨block, hblock, hblock'⟩ := getElem?_mapM hpass hb
  rw [hrun] at hblock'
  cases hblock'
  exact hblock

theorem phis_instrumented (hpass : instrumentBlocks g.blocks = some blocks) (i : Nat) :
    (blocks[i]?).map Ssa.CallBlock.phis = (g.blocks[i]?).map Ssa.Block.phis := by
  cases hi : g.blocks[i]? with
  | some bb =>
    obtain ⟨bb', hbb', hrun⟩ := getElem?_mapM hpass hi
    obtain ⟨code, -, rfl⟩ := Option.map_eq_some_iff.mp hrun
    rw [hbb']
    rfl
  | none =>
    have hlength := (mapM_eq_some_iff.mp hpass).length_eq
    rw [List.getElem?_eq_none_iff, hlength, ← List.getElem?_eq_none_iff] at hi
    rw [hi]
    rfl

/-- The entry block makes no call. -/
theorem Built.callStep_entry (h : Built source function k g) (hpass : instrumentBlocks g.blocks = some blocks)
    (m : Ssa.CallMachine (Nat × Argument) σ) :
    Ssa.callStep handlers blocks (.running 0 (fun _ => none) m) =
      .running (g.head source.entryPc) (structRegisters function m.machine) m := by
  have hentry : g.blocks[0]? = some ⟨[], g.entryCode⟩ := rfl
  have hentry' := getElem?_instrumented hpass hentry (runOnBasicBlock_untouched h.untouched_entry)
  rw [Ssa.callStep_plain hentry hentry' (phis_instrumented hpass), h.step_entry]
  rfl

/-- Nor do the exits. -/
theorem Built.callStep_exit (h : Built source function k g) (hpass : instrumentBlocks g.blocks = some blocks)
    (hpc : pc ∈ g.pcs) (hk : g.head pc ≤ k) (hrange : source.pcRanges.isInRange pc = false)
    (htyped : registers.Typed) : ∃ m' : Ssa.CallMachine (Nat × Argument) σ,
      Ssa.callStep handlers blocks (.running (g.head pc) registers m) = .returned m' ∧ m'.calls = m.calls := by
  obtain ⟨z, hz⟩ := htyped.flag .flagZ rfl
  obtain ⟨n, hn⟩ := htyped.flag .flagN rfl
  obtain ⟨c, hc⟩ := htyped.flag .flagC rfl
  obtain ⟨v, hv⟩ := htyped.flag .flagV rfl
  have hcpsr : registers .cpsr = some (.i32 (registers.word .cpsr)) := htyped.word rfl
  obtain ⟨env, machine, hrun, -⟩ := execAll_exitCode_stores function m.machine htyped hcpsr hz hn hc hv
  have hblock := getElem?_head hpc
  have hblock' := getElem?_instrumented hpass hblock (runOnBasicBlock_untouched (h.untouched_exit hpc hk hrange))
  refine ⟨{ m with machine := machine }, ?_, rfl⟩
  rw [Ssa.callStep_plain hblock hblock' (phis_instrumented hpass),
    Ssa.step_returned hblock (h.code_exit hpc hk hrange) hrun]
  rfl

theorem Built.callStep_inRange (h : Built source function k g) (hpass : instrumentBlocks g.blocks = some blocks)
    (hpc : pc ∈ g.pcs) (hk : g.head pc ≤ k) (hrange : source.pcRanges.isInRange pc = true) (t : Translation source pc)
    {code' : List CallInstr} (hmediates : Mediates t.inst t.emission.code code') (htyped : registers.Typed) :
    ∃ pc' ∈ g.pcs, ∃ registers' m', Registers.Typed registers' ∧
      Ssa.callStep handlers blocks (.running (g.head pc) registers m) = .running (g.head pc') registers' m' ∧
      m'.calls = m.calls ++ t.inst.mediated registers := by
  have hcode := mapM_typed t.typed.code hmediates.pass
  obtain ⟨env, m', hrun, hcalls, -, henv⟩ := hcode.execAll htyped (hmediates.closed registers) m
  obtain ⟨pc', htarget, -, terminator, hterminator, hexit⟩ :=
    Successor.nextPc_eq t.next_eq t.next_typed henv g.head
  have hend : Untouched terminator := by
    obtain ⟨_, heq, hend⟩ := Next.exists_terminator (Successor.next_ne_skip t.next_eq) g.head
    rw [hterminator] at heq
    cases heq
    exact untouched_of_isTerminator hend
  have hpc' := h.target_mem hpc hk (t.piece_eq hrange function) htarget
  have hblock := getElem?_instrumented hpass (getElem?_head hpc)
    (h.runOnBasicBlock_inRange hpc hk hrange t hmediates hterminator hend)
  obtain ⟨bb', hbb', hpass'⟩ := getElem?_mapM hpass (getElem?_head hpc')
  obtain ⟨_, -, rfl⟩ := Option.map_eq_some_iff.mp hpass'
  refine ⟨pc', hpc', t.registers env, m', t.registers_typed henv, ?_, ?_⟩
  · rw [Ssa.callStep_goto hblock rfl hrun hexit hbb']
    exact congrArg (fun phi => Ssa.CallState.running (g.head pc') phi m') (h.enter_target hpc hk hrange t htarget env)
  · rw [hcalls, hmediates.calls registers htyped]

end Step

end Graph

/-! ### Runs -/

abbrev CallState (σ : Type) := Ssa.CallState Register (Nat × Argument) σ

abbrev Handlers (σ : Type) := Ssa.Handlers (Nat × Argument) σ

/-- The instruction whose block comes next, with the registers as its phi nodes have them. -/
def instructionAt {σ : Type} (source : Source) (units : List TranslationUnit) : CallState σ → Option (MCInst × Registers)
  | .running b registers _ => do
    let unit ← units.find? (·.head = b)
    guard (source.pcRanges.isInRange unit.pc)
    match decode source unit.pc with
    | .ok (some inst) => some (inst, registers)
    | _ => none
  | _ => none

/-- The accesses that the original instruction performs next. -/
def performed {σ : Type} (source : Source) (units : List TranslationUnit) (s : CallState σ) : List Access :=
  match instructionAt source units s with
  | some (inst, registers) => inst.accesses registers
  | none => []

/-- The next instruction is a `PUSH`. -/
def Pushes {σ : Type} (source : Source) (units : List TranslationUnit) (s : CallState σ) : Prop :=
  ∃ inst registers, instructionAt source units s = some (inst, registers) ∧ inst.opcode = .tPUSH

/-- The state of the instrumented function after `n` blocks. -/
def runOf {σ : Type} (handlers : Handlers σ) (blocks : List CallBlock) (machine : Machine) (state : σ) (n : Nat) :
    CallState σ :=
  (Ssa.callStep handlers blocks)^[n] (.running 0 (fun _ => none) ⟨machine, state, []⟩)

/-- The calls in the first `n` blocks of a run are the accesses of the original instructions there. -/
def Mediated {σ : Type} (source : Source) (units : List TranslationUnit) (run : Nat → CallState σ) (n : Nat) : Prop :=
  (run n).calls = (List.range n).flatMap fun i => performed source units (run i)

section Runs
variable {source : Source} {function : Nat} {g : Graph} {σ : Type} {handlers : Handlers σ} {blocks : List CallBlock}

/-- The calls that the next block makes. -/
def mediatedAt (source : Source) (units : List TranslationUnit) (s : CallState σ) : List Access :=
  match instructionAt source units s with
  | some (inst, registers) => inst.mediated registers
  | none => []

/-- A run is at the head of a unit, with typed registers, or at its end. -/
inductive Runs (g : Graph) : CallState σ → Prop where
  | running {pc : BitVec 64} {registers : Registers} {m : Ssa.CallMachine (Nat × Argument) σ} (hpc : pc ∈ g.pcs)
      (htyped : registers.Typed) : Runs g (.running (g.head pc) registers m)
  | returned {m : Ssa.CallMachine (Nat × Argument) σ} : Runs g (.returned m)

theorem find?_units {pc : BitVec 64} (hpc : pc ∈ g.pcs) : g.units.find? (·.head = g.head pc) = some ⟨pc, g.head pc⟩ := by
  cases hfound : g.units.find? (·.head = g.head pc) with
  | none =>
    have hunit : (⟨pc, g.head pc⟩ : TranslationUnit) ∈ g.units := List.mem_map_of_mem hpc
    exact absurd (decide_eq_true rfl) (List.find?_eq_none.mp hfound _ hunit)
  | some unit =>
    have hfirst := List.find?_some hfound
    have hhead : unit.head = g.head pc := of_decide_eq_true hfirst
    obtain ⟨pc', hpc', rfl⟩ := List.mem_map.mp (List.mem_of_find?_eq_some hfound)
    rw [(List.idxOf_inj hpc').mp (Nat.succ.inj hhead)]

theorem instructionAt_inRange {pc : BitVec 64} {registers : Registers} {m : Ssa.CallMachine (Nat × Argument) σ}
    (hpc : pc ∈ g.pcs) (hrange : source.pcRanges.isInRange pc = true) (t : Translation source pc) :
    instructionAt source g.units (.running (g.head pc) registers m) = some (t.inst, registers) := by
  simp only [instructionAt, find?_units hpc, hrange, t.decode_eq, Option.bind_eq_bind, Option.bind_some, guard, if_true]
  rfl

theorem instructionAt_exit {pc : BitVec 64} {registers : Registers} {m : Ssa.CallMachine (Nat × Argument) σ}
    (hpc : pc ∈ g.pcs) (hrange : source.pcRanges.isInRange pc = false) :
    instructionAt source g.units (.running (g.head pc) registers m) = none := by
  simp only [instructionAt, find?_units hpc, hrange, Option.bind_eq_bind, Option.bind_some, guard]
  rfl

theorem instructionAt_entry {registers : Registers} {m : Ssa.CallMachine (Nat × Argument) σ} :
    instructionAt source g.units (.running 0 registers m) = none := by
  have hnone : g.units.find? (·.head = 0) = none := by
    rw [List.find?_eq_none]
    intro unit hunit
    obtain ⟨pc, -, rfl⟩ := List.mem_map.mp hunit
    exact fun h => Nat.succ_ne_zero _ (of_decide_eq_true h)
  rw [instructionAt, hnone]
  rfl

/-- One block: the run goes on, and the calls are those of the instruction. -/
theorem Runs.step (hbuilt : Graph.Built source function g.pcs.length g) (hconforms : source.disassembler.Conforms)
    (hok : ∀ pc ∈ g.pcs, source.DecodesInRanges pc) (hpass : instrumentBlocks g.blocks = some blocks)
    {s : CallState σ} (h : Runs g s) : Runs g (Ssa.callStep handlers blocks s) ∧
      (Ssa.callStep handlers blocks s).calls = s.calls ++ mediatedAt source g.units s := by
  cases h with
  | @running pc registers m hpc htyped =>
    have hk : g.head pc ≤ g.pcs.length := List.idxOf_lt_length_iff.mpr hpc
    cases hrange : source.pcRanges.isInRange pc with
    | true =>
      obtain ⟨t⟩ := (hok pc hpc hrange).translation hconforms
      obtain ⟨code', hmediates⟩ := t.exists_mediates hconforms
      obtain ⟨pc', hpc', registers', m', htyped', hstep, hcalls⟩ :=
        hbuilt.callStep_inRange hpass hpc hk hrange t hmediates htyped
      rw [hstep, mediatedAt, instructionAt_inRange hpc hrange t]
      exact ⟨.running hpc' htyped', hcalls⟩
    | false =>
      obtain ⟨m', hstep, hcalls⟩ := hbuilt.callStep_exit hpass hpc hk hrange htyped
      rw [hstep, mediatedAt, instructionAt_exit hpc hrange, List.append_nil]
      exact ⟨.returned, hcalls⟩
  | returned => exact ⟨.returned, (List.append_nil _).symm⟩

/-- After the entry block the run is at the heads of units, and its calls are those of its instructions. -/
theorem runs_runOf (hbuilt : Graph.Built source function g.pcs.length g) (hconforms : source.disassembler.Conforms)
    (hok : ∀ pc ∈ g.pcs, source.DecodesInRanges pc) (hpass : instrumentBlocks g.blocks = some blocks)
    (machine : Machine) (state : σ) (n : Nat) :
    Runs g (runOf handlers blocks machine state (n + 1)) ∧
      (runOf handlers blocks machine state (n + 1)).calls =
        (List.range (n + 1)).flatMap fun i => mediatedAt source g.units (runOf handlers blocks machine state i) := by
  induction n with
  | zero =>
    have hentry : runOf handlers blocks machine state 1 = _ := hbuilt.callStep_entry hpass _
    rw [hentry, List.range_one, List.flatMap_singleton, mediatedAt]
    refine ⟨.running (List.mem_of_getElem? hbuilt.explored.first) (structRegisters_typed function machine), ?_⟩
    have hnone : instructionAt source g.units (runOf handlers blocks machine state 0) = none := instructionAt_entry
    rw [hnone]
    rfl
  | succ n ih =>
    obtain ⟨hruns, hcalls⟩ := ih
    have hstep : runOf handlers blocks machine state (n + 2) =
        Ssa.callStep handlers blocks (runOf handlers blocks machine state (n + 1)) :=
      Function.iterate_succ_apply' ..
    obtain ⟨hruns', hcalls'⟩ := hruns.step hbuilt hconforms hok hpass
    rw [← hstep] at hruns' hcalls'
    refine ⟨hruns', ?_⟩
    rw [hcalls', hcalls, List.range_succ (n := n + 1), List.flatMap_append, List.flatMap_singleton]

/-! ### The condition -/

theorem stored_ne_nil {registers : Registers} {address : BitVec 32} {list : List Register} (h : list ≠ []) :
    registers.stored address (list.map .reg) ≠ [] := by
  cases list with
  | nil => exact absurd rfl h
  | cons r list => nofun

theorem exists_decode_of_instructionAt {units : List TranslationUnit} {s : CallState σ} {inst : MCInst}
    {registers : Registers} (hat : instructionAt source units s = some (inst, registers)) :
    ∃ pc, decode source pc = .ok (some inst) := by
  cases s with
  | running b phi m =>
    obtain ⟨unit, -, hat⟩ := Option.bind_eq_some_iff.mp hat
    obtain ⟨_, -, hat⟩ := Option.bind_eq_some_iff.mp hat
    split at hat
    · rename_i inst' hdecode
      cases hat
      exact ⟨_, hdecode⟩
    · cases hat
  | returned | undefined => cases hat

theorem pushes_iff {units : List TranslationUnit} {s : CallState σ} {inst : MCInst} {registers : Registers}
    (hat : instructionAt source units s = some (inst, registers)) :
    Pushes source units s ↔ inst.opcode = .tPUSH := by
  constructor
  · rintro ⟨inst', registers', hat', hpush⟩
    rw [hat] at hat'
    cases hat'
    exact hpush
  · intro hpush
    exact ⟨inst, registers, hat, hpush⟩

/-- An instruction whose calls are not its accesses is a `PUSH`, which has accesses and no calls. -/
theorem mediatedAt_eq_iff (hconforms : source.disassembler.Conforms) (units : List TranslationUnit) (s : CallState σ) :
    mediatedAt source units s = performed source units s ↔ ¬Pushes source units s := by
  cases hat : instructionAt source units s with
  | none =>
    refine iff_of_true (by rw [mediatedAt, performed, hat]) ?_
    rintro ⟨inst, registers, hinst, -⟩
    rw [hat] at hinst
    cases hinst
  | some r =>
    obtain ⟨inst, registers⟩ := r
    have hmediated : mediatedAt source units s = inst.mediated registers := by rw [mediatedAt, hat]
    have hperformed : performed source units s = inst.accesses registers := by rw [performed, hat]
    rw [hmediated, hperformed, pushes_iff hat, MCInst.mediated]
    by_cases hpush : inst.opcode = .tPUSH
    · obtain ⟨pc, hdecode⟩ := exists_decode_of_instructionAt hat
      have hformed := wellFormed_of_decode hconforms hdecode
      rw [hpush] at hformed
      obtain ⟨list, hlist, -, hoperands⟩ := hformed
      rw [if_pos hpush]
      refine iff_of_false ?_ (not_not_intro hpush)
      simp only [MCInst.accesses, hpush, hoperands]
      exact (stored_ne_nil hlist).symm
    · rw [if_neg hpush]
      exact iff_of_true rfl hpush

theorem length_mediatedAt_le (units : List TranslationUnit) (s : CallState σ) :
    (mediatedAt source units s).length ≤ (performed source units s).length := by
  rw [mediatedAt, performed]
  split
  · rw [MCInst.mediated]
    split
    · exact Nat.zero_le _
    · exact Nat.le_refl _
  · exact Nat.le_refl _

/-- Over the first `n` blocks, no call is missing exactly when no `PUSH` is executed. -/
theorem flatMap_mediatedAt_iff (hconforms : source.disassembler.Conforms) (units : List TranslationUnit)
    (run : Nat → CallState σ) (n : Nat) :
    (((List.range n).flatMap fun i => mediatedAt source units (run i)) =
      (List.range n).flatMap fun i => performed source units (run i)) ↔ ∀ i < n, ¬Pushes source units (run i) :=
  (flatMap_range_eq_iff (fun i => length_mediatedAt_le units (run i)) n).trans <|
    forall₂_congr fun i _ => mediatedAt_eq_iff hconforms units (run i)

theorem calls_runOf (hbuilt : Graph.Built source function g.pcs.length g) (hconforms : source.disassembler.Conforms)
    (hok : ∀ pc ∈ g.pcs, source.DecodesInRanges pc) (hpass : instrumentBlocks g.blocks = some blocks)
    (handlers : Handlers σ) (machine : Machine) (state : σ) (n : Nat) :
    runOf handlers blocks machine state n ≠ .undefined ∧
      (runOf handlers blocks machine state n).calls =
        (List.range n).flatMap fun i => mediatedAt source g.units (runOf handlers blocks machine state i) := by
  cases n with
  | zero => exact ⟨nofun, rfl⟩
  | succ n =>
    obtain ⟨hruns, hcalls⟩ := runs_runOf hbuilt hconforms hok hpass machine state n
    refine ⟨fun hundefined => ?_, hcalls⟩
    rw [hundefined] at hruns
    cases hruns

end Runs

/-- What the instrumentation of a call does to the runs of its function: they are defined, and their calls are the
    accesses of the original instructions exactly as long as they execute no `PUSH`. -/
def MediatesButPush (call : Call) (c : Cache) : Prop :=
  ∃ done blocks, instrumentMemoryAccess call c = some done ∧ done.failure = none ∧
    instrumentBlocks done.wrapper.blocks = some blocks ∧
    ∀ (σ : Type) (handlers : Handlers σ) (machine : Machine) (state : σ) (n : Nat),
      runOf handlers blocks machine state n ≠ .undefined ∧
      (Mediated call.source done.wrapper.units (runOf handlers blocks machine state) n ↔
        ∀ i < n, ¬Pushes call.source done.wrapper.units (runOf handlers blocks machine state i))

/-- What the first call of a process leaves. -/
theorem exists_instrumented (call : Call) (hconforms : call.source.disassembler.Conforms)
    (hentry : call.source.pcRanges.isInRange call.source.entryPc = true)
    (hok : ∀ pc, Worklist.Reachable (successors call.source) call.source.entryPc pc →
      call.source.DecodesInRanges pc) :
    ∃ (done : Done) (g : Graph) (blocks : List CallBlock), instrumentMemoryAccess call Cache.empty = some done ∧
      done.failure = none ∧ done.wrapper.units = g.units ∧ done.wrapper.blocks = g.blocks ∧
      Graph.Built call.source call.function g.pcs.length g ∧ (∀ pc ∈ g.pcs, call.source.DecodesInRanges pc) ∧
      instrumentBlocks g.blocks = some blocks := by
  obtain ⟨o, ho, hended⟩ := Graph.instrumentMemoryAccess_empty hentry
  rcases hended with ⟨hfailure, g, hbuilt, -, hcache, -⟩ | ⟨-, pc, hpc, hnone⟩
  · have hok' : ∀ pc ∈ g.pcs, call.source.DecodesInRanges pc := fun pc hpc => hok pc ((Graph.mem_pcs_iff hbuilt).mp hpc)
    obtain ⟨blocks, hpass⟩ := hbuilt.exists_instrumentBlocks hconforms hok'
    have hwrapper := Graph.wrapper_of_finished hcache
    refine ⟨_, g, blocks, ho, finishCall_failure.trans hfailure, ?_, ?_, hbuilt, hok', hpass⟩
    · rw [hwrapper]
    · rw [hwrapper]
  · obtain ⟨p, hp, -⟩ := piece_closed (hok pc hpc) hconforms call.function
    cases hnone.symm.trans hp

/-- At a fresh address, after any calls, a program whose instructions in the ranges, as far as they can be reached,
    decode with success and have translators. -/
theorem mediated_iff (call : Call) {c : Cache} (hfresh : Fresh c call) (hconforms : call.source.disassembler.Conforms)
    (hentry : call.source.pcRanges.isInRange call.source.entryPc = true)
    (hok : ∀ pc, Worklist.Reachable (successors call.source) call.source.entryPc pc →
      call.source.DecodesInRanges pc) : MediatesButPush call c := by
  obtain ⟨done, g, blocks, hdone, hfailure, hunits, hblocks, hbuilt, hok', hpass⟩ :=
    exists_instrumented call hconforms hentry hok
  have hview := independent_of_fresh hfresh
  rw [Independent, hdone, Option.map_some, Option.map_eq_some_iff] at hview
  obtain ⟨done', hdone', hview⟩ := hview
  simp only [Done.view, Prod.mk.injEq] at hview
  obtain ⟨-, hfailure', hunits', hblocks', -⟩ := hview
  refine ⟨done', blocks, hdone', hfailure'.trans hfailure, ?_, fun σ handlers machine state n => ?_⟩
  · rw [hblocks', hblocks, hpass]
  · obtain ⟨hdefined, hcalls⟩ := calls_runOf hbuilt hconforms hok' hpass handlers machine state n
    rw [hunits', hunits, Mediated, hcalls]
    exact ⟨hdefined, flatMap_mediatedAt_iff hconforms g.units _ n⟩

/-! ### A program that pushes -/

/-- `PUSH {r0}`, and `LDR r0, [r1, #4]`. -/
def pushLoad : Source where
  disassembler memory pc :=
    let bytes := (memory pc 2).2
    if bytes = [0x01, 0xB4] then ⟨.success, .tPUSH, Operand.always ++ [.reg .r0], 2⟩
    else if bytes = [0x48, 0x68] then ⟨.success, .tLDRi, [.reg .r0, .reg .r1, .imm 1] ++ Operand.always, 2⟩
    else ⟨.fail, .other 0, [], 0⟩
  memory address size := (size, ([0x01, 0xB4, 0x48, 0x68].drop address.toNat).take size)
  entryPc := 0
  pcRanges := [(0, 4)]

theorem pushLoad_conforms : pushLoad.disassembler.Conforms := by
  intro memory pc hstatus
  simp only [pushLoad] at hstatus ⊢
  split
  · exact ⟨[.r0], nofun, fun r hr => .inl (by rw [List.mem_singleton.mp hr]; rfl), rfl⟩
  · rename_i hpush
    rw [if_neg hpush] at hstatus
    split
    · exact ⟨_, _, _, rfl, rfl, rfl, trivial⟩
    · rename_i hload
      rw [if_neg hload] at hstatus
      cases hstatus

theorem pushLoad_decodesInRanges {pc : BitVec 64}
    (h : Worklist.Reachable (successors pushLoad) pushLoad.entryPc pc) : pushLoad.DecodesInRanges pc := by
  have hsuccessors : [0, 2, 4].flatMap (successors pushLoad) = [2, 4] := by decide +kernel
  have hmem : pc ∈ [0, 2, 4] := Worklist.mem_of_reachable (.head _) (by rw [hsuccessors]; simp) h
  intro hrange
  simp only [List.mem_cons, List.not_mem_nil, or_false] at hmem
  rcases hmem with rfl | rfl | rfl
  · exact ⟨by decide +kernel, by decide +kernel⟩
  · exact ⟨by decide +kernel, by decide +kernel⟩
  · exact absurd hrange (by decide +kernel)

theorem mediated_iff_pushLoad : MediatesButPush ⟨pushLoad, 0, fun _ => .compiled⟩ Cache.empty :=
  mediated_iff ⟨pushLoad, 0, fun _ => .compiled⟩ ⟨rfl, rfl, fun _ _ => List.not_mem_nil⟩ pushLoad_conforms (by decide)
    fun _ => pushLoad_decodesInRanges

/-- Its first instruction stores a word without a call. -/
theorem not_mediated : ¬∀ call : Call, call.source.disassembler.Conforms →
    call.source.pcRanges.isInRange call.source.entryPc = true →
    (∀ pc, Worklist.Reachable (successors call.source) call.source.entryPc pc → call.source.DecodesInRanges pc) →
    ∀ done blocks, instrumentMemoryAccess call Cache.empty = some done →
      instrumentBlocks done.wrapper.blocks = some blocks →
      ∀ (σ : Type) (handlers : Handlers σ) (machine : Machine) (state : σ) (n : Nat),
        Mediated call.source done.wrapper.units (runOf handlers blocks machine state) n := by
  intro h
  let call : Call := ⟨pushLoad, 0, fun _ => .compiled⟩
  have hentry : call.source.pcRanges.isInRange call.source.entryPc = true := by decide
  have hok : ∀ pc, Worklist.Reachable (successors call.source) call.source.entryPc pc →
      call.source.DecodesInRanges pc := fun _ => pushLoad_decodesInRanges
  obtain ⟨done, g, blocks, hdone, -, hunits, hblocks, hbuilt, hok', hpass⟩ :=
    exists_instrumented call pushLoad_conforms hentry hok
  let handlers : Handlers Unit := ⟨fun _ _ m s => (0, m, s), fun _ _ _ m s => (m, s)⟩
  let machine : Machine := ⟨fun _ => 0, fun _ _ => 0⟩
  have hmediated := h call pushLoad_conforms hentry hok done blocks hdone (hblocks ▸ hpass) Unit handlers machine () 2
  obtain ⟨-, hcalls⟩ := calls_runOf hbuilt pushLoad_conforms hok' hpass handlers machine () 2
  rw [hunits, Mediated, hcalls] at hmediated
  have hnone := (flatMap_mediatedAt_iff pushLoad_conforms g.units _ 2).mp hmediated 1 (by decide)
  have hpc := List.mem_of_getElem? hbuilt.explored.first
  obtain ⟨t⟩ := (hok' _ hpc hentry).translation pushLoad_conforms
  have hfirst : runOf handlers blocks machine () 1 = _ := hbuilt.callStep_entry hpass _
  have hopcode : t.inst.opcode = .tPUSH := by
    have hdecode := t.decode_eq
    have hpush : decode call.source call.source.entryPc =
        .ok (some ⟨.tPUSH, Operand.always ++ [.reg .r0], 0, 2⟩) := by decide +kernel
    rw [hpush] at hdecode
    rw [← Option.some.inj (Except.ok.inj hdecode)]
  exact hnone ⟨t.inst, _, by rw [hfirst, instructionAt_inRange hpc hentry t], hopcode⟩

end Avatar.Translator
