import Avatar.Lib.Transition
import Avatar.Lib.TwoRuns
import Avatar.Translator.Build

/-! When a call of `instrument_memory_access` does what it would do as the first call of the process, whatever
    was called before. The queue and the cache outlive the calls, so this takes an empty queue, and an
    address of the new function whose keys in the cache the call does not look up. -/

namespace Avatar.Translator
open Avatar.Translator.Graph TwoRuns

/-- What a call does: the units that it processes in order, how its loop ends, its units and blocks and its result. -/
def Done.view (done : Done) :
    List (Nat × BitVec 64) × Option Failure × List TranslationUnit × List BasicBlock × Result :=
  (done.trace, done.failure, done.wrapper.units, done.wrapper.blocks, done.result)

def Independent (c : Cache) (call : Call) : Prop :=
  (instrumentMemoryAccess call c).map Done.view = (instrumentMemoryAccess call Cache.empty).map Done.view

/-- Nothing is queued, and the address of the function belongs to no living function and to no key that the call
    looks up. -/
structure Fresh (c : Cache) (call : Call) : Prop where
  unfinished : c.unfinished = []
  units : (c.functions call.function).units = []
  stale : ∀ pc, Worklist.Reachable (successors call.source) call.source.entryPc pc →
    pc ∉ (c.functions call.function).stale

/-- The two caches agree on a function, and on the queue but for the units `first` that the one has in front.
    Neither has a stale key that satisfies `P`. -/
structure Agree (P : BitVec 64 → Prop) (first : List Unfinished) (function : Nat) (c c' : Cache) : Prop where
  unfinished : c.unfinished = first ++ c'.unfinished
  units : (c.functions function).units = (c'.functions function).units
  blocks : (c.functions function).blocks = (c'.functions function).blocks
  stale : ∀ pc, P pc → pc ∉ (c.functions function).stale
  stale' : ∀ pc, P pc → pc ∉ (c'.functions function).stale

variable {P : BitVec 64 → Prop} {first : List Unfinished} {function : Nat} {c c' : Cache} {source : Source}
  {call : Call}

/-! ### Operations on the cache -/

namespace Agree

theorem getBlocks : Respects (Agree P first function) (CacheM.getBlocks function) := fun c c' h => by
  rw [CacheM.getBlocks_eq, CacheM.getBlocks_eq, h.blocks]
  exact .ok h

theorem modifyFunction {f : FunctionState → FunctionState} (hstale : ∀ s, (f s).stale = s.stale)
    (hunits : ∀ s s', s.units = s'.units → s.blocks = s'.blocks → (f s).units = (f s').units)
    (hblocks : ∀ s s', s.units = s'.units → s.blocks = s'.blocks → (f s).blocks = (f s').blocks) :
    Respects (Agree P first function) (CacheM.modifyFunction function f) := by
  refine .update fun c c' h => ⟨h.unfinished, ?_, ?_, fun pc hpc => ?_, fun pc hpc => ?_⟩
  · simp only [Function.update_self]
    exact hunits _ _ h.units h.blocks
  · simp only [Function.update_self]
    exact hblocks _ _ h.units h.blocks
  · simp only [Function.update_self, hstale]
    exact h.stale pc hpc
  · simp only [Function.update_self, hstale]
    exact h.stale' pc hpc

theorem getBlock (head : Nat) : Respects (Agree P first function) (CacheM.getBlock function head) :=
  getBlocks.bind fun blocks => by
    cases blocks[head]? with
    | some block => exact .pure block
    | none => exact .throw _

theorem setBlock (head : Nat) (block : BasicBlock) :
    Respects (Agree P first function) (CacheM.setBlock function head block) :=
  modifyFunction (fun _ => rfl) (fun _ _ hunits _ => hunits) fun _ _ _ hblocks => by simp only [hblocks]

theorem append (head : Nat) (instrs : List Instr) :
    Respects (Agree P first function) (CacheM.append function head instrs) :=
  (getBlock head).bind fun _ => setBlock _ _

theorem addIncoming (unit : TranslationUnit) (values : Values) (predecessor : Nat) :
    Respects (Agree P first function) (CacheM.addIncoming function unit values predecessor) :=
  (getBlock unit.head).bind fun block => by
    split
    · exact setBlock _ _
    · exact (Respects.throw _).bind fun _ => setBlock _ _

theorem find {pc : BitVec 64} (hpc : P pc) :
    Respects (Agree P first function) (CacheM.find function pc) := fun c c' h => by
  rw [CacheM.find_eq (h.stale pc hpc), CacheM.find_eq (h.stale' pc hpc), h.units]
  exact .ok h

theorem create (pc : BitVec 64) : Respects (Agree P first function) (CacheM.create function pc) :=
  getBlocks.bind fun blocks => by
    refine Respects.bind ?_ fun _ => Respects.bind ?_ fun _ => .pure _
    · refine modifyFunction (fun _ => rfl) (fun s s' hunits _ => ?_) fun s s' _ hblocks => ?_
      · simp only [hunits]
      · simp only [hblocks]
    · exact .update fun c c' h => ⟨by simp only [h.unfinished, List.append_assoc], h.units, h.blocks, h.stale, h.stale'⟩

theorem findCreate {pc : BitVec 64} (hpc : P pc) (values : Values) (predecessor : Nat) (terminate : Bool) :
    Respects (Agree P first function) (CacheM.findCreate function pc values predecessor terminate) :=
  (find hpc).bind fun unit => by
    have hunit (unit : TranslationUnit) : Respects (Agree P first function) (do
        CacheM.addIncoming function unit values predecessor
        if terminate then CacheM.append function predecessor [.br unit.head]
        return unit) :=
      (addIncoming unit values predecessor).bind fun _ => by
        split
        · exact (append _ _).bind fun _ => .pure _
        · exact .pure _
    cases unit with
    | some unit => exact hunit unit
    | none => exact (create pc).bind hunit

theorem emit {α : Type} (head : Nat) (values : Values) (m : EmitM α) :
    Respects (Agree P first function) (CacheM.emit function head values m) :=
  (getBlock head).bind fun block => by
    cases m ⟨block.code, values⟩ with
    | some r => exact (setBlock _ _).bind fun _ => .pure _
    | none => exact .throw _

theorem finish {inst : MCInst} {successor : Successor} (htargets : ∀ pc ∈ successor.targets inst, P pc) (head : Nat)
    (values : Values) : Respects (Agree P first function) (CacheM.finish function head values inst successor) := by
  cases successor with
  | fallThrough => exact (findCreate (htargets _ (List.mem_cons_self ..)) _ _ _).discard
  | jump offset =>
    exact (findCreate (htargets _ (List.mem_cons_self ..)) _ _ _).bind fun next => append _ _
  | branch offset condition =>
    refine (findCreate (htargets _ (List.mem_cons_self ..)) _ _ _).bind fun condFalse =>
      (findCreate (htargets _ (List.mem_cons_of_mem _ (List.mem_cons_self ..))) _ _ _).bind fun condTrue => ?_
    cases getCondition values (BitVec.ofInt 32 condition) with
    | none => exact .throw _
    | some cond =>
      cases cond with
      | none => exact .throw _
      | some cond => exact append _ _

end Agree

/-! ### A call -/

/-- Every program counter that the call looks up can be reached. -/
abbrev AgreeOn (source : Source) : List Unfinished → Nat → Cache → Cache → Prop :=
  Agree (Worklist.Reachable (successors source) source.entryPc)

theorem construct_agree (hunits : (c.functions call.function).units = [])
    (hstale : ∀ pc, Worklist.Reachable (successors call.source) call.source.entryPc pc →
      pc ∉ (c.functions call.function).stale) :
    Same (AgreeOn call.source c.unfinished call.function)
      (construct call.source call.function c) (construct call.source call.function Cache.empty) := by
  let entry (c : Cache) : FunctionState := { c.functions call.function with blocks := [⟨[], []⟩] }
  have hmodify : AgreeOn call.source c.unfinished call.function
      ⟨Function.update c.functions call.function (entry c), c.unfinished⟩
      ⟨Function.update Cache.empty.functions call.function (entry Cache.empty), Cache.empty.unfinished⟩ := by
    constructor
    · exact (List.append_nil _).symm
    · simp only [Function.update_self]
      exact hunits
    · simp only [Function.update_self]
      rfl
    · simp only [Function.update_self]
      exact hstale
    · simp only [Function.update_self]
      exact fun _ _ => List.not_mem_nil
  have hrest : Respects (AgreeOn call.source c.unfinished call.function) (do
      let r ← CacheM.emit call.function 0 [] (genCodeEntry call.function)
      discard <| CacheM.findCreate call.function call.source.entryPc r.2 0 true) :=
    (Agree.emit _ _ _).bind fun r => (Agree.findCreate .refl _ _ _).discard
  exact hrest _ _ hmodify

/-- The unit at the front of the queue. Its block is empty, so its translator ends as `successors` says. -/
theorem process_agree {g : Graph} {k : Nat} {pc : BitVec 64} (hbuilt : Built source function k g)
    (hpc : g.pcs[k]? = some pc)
    (h : AgreeOn source [] function c (g.toCache function (k + 1))) : Same (AgreeOn source [] function)
      (process source function ⟨function, ⟨pc, g.head pc⟩, initialValues, false⟩ c)
      (process source function ⟨function, ⟨pc, g.head pc⟩, initialValues, false⟩ (g.toCache function (k + 1))) := by
  simp only [process, Bool.false_eq_true, if_false]
  cases hrange : source.pcRanges.isInRange pc with
  | false => exact (Agree.emit _ _ _).discard _ _ h
  | true =>
    simp only [if_true, translateSingleInstruction]
    cases hdecode : decode source pc with
    | error failure => exact .error h
    | ok inst =>
      cases inst with
      | none => exact .ok h
      | some inst =>
        simp only [MonadExcept.ofExcept, pure_bind]
        cases htranslator : instructionTranslator source.memory inst.opcode with
        | none => exact .error h
        | some translator =>
          refine (Agree.emit _ _ _ _ _ h).bind fun r t hr => ?_
          have hmem : pc ∈ g.pcs := List.mem_of_getElem? hpc
          have hcode : g.code pc = [] := hbuilt.fresh pc fun _ => by
            rw [head_of_getElem? hpc]
            exact Nat.lt_succ_self k
          cases he : translator inst ⟨[], initialValues⟩ with
          | none =>
            rw [emit_error hmem (hcode ▸ he)] at hr
            cases hr
          | some r' =>
            rw [emit_head hmem (hcode ▸ he)] at hr
            cases hr
            refine Agree.finish (fun target htarget => ?_) _ _
            rw [← successors_of_translator hrange hdecode htranslator he] at htarget
            exact (hbuilt.explored.reachable pc hmem).tail htarget

structure AgreeOutcome (source : Source) (function : Nat) (o o' : Outcome) : Prop where
  trace : o.trace = o'.trace
  failure : o.failure = o'.failure
  cache : AgreeOn source [] function o.cache o'.cache

theorem translateLoop_agree {g : Graph} {k : Nat} (hbuilt : Built source function k g)
    (h : AgreeOn source [] function c (g.toCache function k)) (fuel : Nat) :
    Option.Rel (AgreeOutcome source function) (translateLoop source function fuel c)
      (translateLoop source function fuel (g.toCache function k)) := by
  induction fuel generalizing c g k with
  | zero =>
    cases hqueue : (g.toCache function k).unfinished with
    | nil =>
      rw [translateLoop_nil hqueue, translateLoop_nil (h.unfinished.trans hqueue)]
      exact .some ⟨rfl, rfl, h⟩
    | cons u rest =>
      rw [translateLoop_zero hqueue, translateLoop_zero (h.unfinished.trans hqueue)]
      exact .none
  | succ fuel ih =>
    rcases Nat.lt_or_ge k g.pcs.length with hk | hk
    · obtain ⟨pc, hpc⟩ : ∃ pc, g.pcs[k]? = some pc := ⟨_, List.getElem?_eq_getElem hk⟩
      have hqueue : (g.toCache function k).unfinished = _ := unfinished_toCache hpc
      have hqueue' := h.unfinished.trans hqueue
      have hrest : AgreeOn source [] function { c with unfinished := (g.toCache function (k + 1)).unfinished }
          (g.toCache function (k + 1)) := ⟨rfl, h.units, h.blocks, h.stale, h.stale'⟩
      have hsame := process_agree hbuilt hpc hrest
      cases hp : piece source function pc with
      | some p =>
        have hprocess := hbuilt.process hpc hp
        rw [hprocess] at hsame
        generalize hr : process source function _ _ = r at hsame
        cases hsame with
        | ok hagree =>
          rw [translateLoop_ok hqueue hprocess, translateLoop_ok hqueue' hr]
          exact rel_map (ih (hbuilt.link hpc hp) hagree) fun o o' ho =>
            ⟨congrArg (_ :: ·) ho.trace, ho.failure, ho.cache⟩
      | none =>
        obtain ⟨failure, c', hc'⟩ := hbuilt.process_error hpc hp
        rw [hc'] at hsame
        generalize hr : process source function _ _ = r at hsame
        cases hsame with
        | error hagree =>
          rw [translateLoop_error hqueue hc', translateLoop_error hqueue' hr]
          exact .some ⟨rfl, rfl, hagree⟩
    · have hk' : k = g.pcs.length := Nat.le_antisymm hbuilt.explored.visited hk
      have hqueue : (g.toCache function k).unfinished = [] := hk' ▸ unfinished_toCache_nil
      rw [translateLoop_nil hqueue, translateLoop_nil (h.unfinished.trans hqueue)]
      exact .some ⟨rfl, rfl, h⟩

theorem finishCall_view {o o' : Outcome} (h : AgreeOutcome call.source call.function o o') :
    (finishCall call o).view = (finishCall call o').view := by
  have hunits := h.cache.units
  have hblocks := h.cache.blocks
  simp only [finishCall, Done.view, h.failure, hblocks]
  split
  · simp only [h.trace, hunits, hblocks]
  · cases call.compile (o'.cache.functions call.function).blocks <;> simp only [h.trace, hunits, hblocks]

theorem independent_of_fresh (h : Fresh c call) : Independent c call := by
  have hsame := construct_agree h.units h.stale
  have hempty := construct_empty call.source call.function
  rw [hempty, h.unfinished] at hsame
  generalize hr : construct call.source call.function c = r at hsame
  cases hsame with
  | ok hagree =>
    have hqueue := hagree.unfinished
    rw [List.nil_append] at hqueue
    simp only [Independent, instrumentMemoryAccess, hr, hempty, hqueue]
    split
    · rw [Option.map_map, Option.map_map]
      exact map_eq_of_rel (translateLoop_agree (.initial _ _) hagree _) fun o o' ho => finishCall_view ho
    · simp only [Option.map_some, Done.aborted, Done.view, hagree.units, hagree.blocks]

theorem head?_trace {fuel : Nat} {u : Unfinished} {rest : List Unfinished} {o : Outcome}
    (hqueue : c.unfinished = u :: rest) (ho : translateLoop source function fuel c = some o) :
    o.trace.head? = some (u.function, u.unit.pc) := by
  cases fuel with
  | zero => rw [translateLoop_zero hqueue] at ho; cases ho
  | succ fuel =>
    cases hu : process source function u { c with unfinished := rest } with
    | ok _ c' =>
      rw [translateLoop_ok hqueue hu] at ho
      obtain ⟨o', -, rfl⟩ := Option.map_eq_some_iff.mp ho
      rfl
    | error failure c' =>
      rw [translateLoop_error hqueue hu] at ho
      cases ho
      rfl

theorem finishCall_trace (o : Outcome) : (finishCall call o).view.1 = o.trace := by
  rw [finishCall]
  split
  · rfl
  · split <;> rfl

theorem firstUnit {c' : Cache} {u : Unfinished} {rest : List Unfinished}
    (hentry : call.source.pcRanges.isInRange call.source.entryPc = true)
    (hconstruct : construct call.source call.function c = .ok () c') (hqueue : c'.unfinished = u :: rest)
    {view : List (Nat × BitVec 64) × Option Failure × List TranslationUnit × List BasicBlock × Result}
    (hview : (instrumentMemoryAccess call c).map Done.view = some view) :
    view.1.head? = some (u.function, u.unit.pc) := by
  obtain ⟨done, hdone, rfl⟩ := Option.map_eq_some_iff.mp hview
  simp only [instrumentMemoryAccess, hconstruct, if_pos hentry] at hdone
  obtain ⟨o, ho, rfl⟩ := Option.map_eq_some_iff.mp hdone
  rw [finishCall_trace]
  exact head?_trace hqueue ho

/-- At a fresh address, a call that finds units of other functions in the queue processes them first. So an empty
    queue is necessary. -/
theorem independent_iff (hunits : (c.functions call.function).units = [])
    (hstale : ∀ pc, Worklist.Reachable (successors call.source) call.source.entryPc pc →
      pc ∉ (c.functions call.function).stale)
    (hentry : call.source.pcRanges.isInRange call.source.entryPc = true)
    (hothers : ∀ u ∈ c.unfinished, u.function ≠ call.function) : Independent c call ↔ c.unfinished = [] := by
  refine ⟨fun h => ?_, fun h => independent_of_fresh ⟨h, hunits, hstale⟩⟩
  cases hfirst : c.unfinished with
  | nil => rfl
  | cons u rest =>
    have hsame := construct_agree hunits hstale
    have hempty := construct_empty call.source call.function
    rw [hempty, hfirst] at hsame
    generalize hr : construct call.source call.function c = r at hsame
    cases hsame with
    | ok hagree =>
      obtain ⟨o, ho, -⟩ := (Built.initial call.source call.function).translateLoop (2 ^ 64)
        (Nat.le_of_eq (Nat.zero_add _).symm)
      have hview : (instrumentMemoryAccess call Cache.empty).map Done.view = some (finishCall call o).view := by
        have hlength : ((initial call.source call.function).toCache call.function 0).unfinished.length = 1 := rfl
        simp only [instrumentMemoryAccess, hempty, if_pos hentry, hlength, Nat.mul_one, ho, Option.map_some]
      have hhead := firstUnit hentry hempty rfl hview
      rw [firstUnit hentry hr hagree.unfinished (h.trans hview)] at hhead
      exact absurd (Prod.mk.inj (Option.some.inj hhead)).1 (hothers u (hfirst ▸ List.mem_cons_self ..))

/-! ### Sequences of calls -/

/-- A call that does not end the process, with what it leaves. -/
def CallStep (c : Cache) (step : Call × Done) (c' : Cache) : Prop :=
  instrumentMemoryAccess step.1 c = some step.2 ∧ step.2.result ≠ .abort ∧ c' = step.2.cache

def FreshStep (c : Cache) (step : Call × Done) (c' : Cache) : Prop := CallStep c step c' ∧ Fresh c step.1

/-- In a sequence of calls each of which finds an empty queue, and no key at the address of its function that it
    looks up, every call did what it would have done as the first one, and so does every later call that is
    fresh. -/
theorem independent_of_freshSteps (steps : List (Call × Done)) (c : Cache)
    (hrun : Transition.Run FreshStep Cache.empty steps c) :
    (∀ step ∈ steps, (instrumentMemoryAccess step.1 Cache.empty).map Done.view = some step.2.view) ∧
      ∀ call, Fresh c call → Independent c call := by
  refine ⟨?_, fun call h => independent_of_fresh h⟩
  induction hrun with
  | nil => exact fun step h => absurd h List.not_mem_nil
  | snoc _ hstep ih =>
    intro step h
    rcases List.mem_append.mp h with h | h
    · exact ih step h
    · obtain rfl := List.mem_singleton.mp h
      obtain ⟨⟨hcall, -, -⟩, hfresh⟩ := hstep
      have hindependent := independent_of_fresh hfresh
      rw [Independent, hcall] at hindependent
      exact hindependent.symm

theorem run_singleton {done : Done} (h : instrumentMemoryAccess call Cache.empty = some done)
    (hresult : done.result ≠ .abort) : Transition.Run CallStep Cache.empty [(call, done)] done.cache :=
  Transition.Run.nil.snoc ⟨h, hresult, rfl⟩

/-- `MOVS R0, #5` and the end of the range, in a function at the given address. -/
def moveCall (function : Nat) : Call where
  source := {
    disassembler := fun _ _ => ⟨.success, .tMOVi8, [.reg .r0, .reg .cpsr, .imm 5] ++ Operand.always, 2⟩
    memory := fun _ size => (size, [0x05, 0x20].take size)
    entryPc := 0
    pcRanges := [(0, 2)] }
  function := function
  compile _ := .compiled

/-- A second call for another function finds the queue empty and no key of the first one. -/
theorem independent_of_freshSteps_moveCall : ∃ done,
    instrumentMemoryAccess (moveCall 0) Cache.empty = some done ∧ Independent done.cache (moveCall 1) := by
  have hrun : (instrumentMemoryAccess (moveCall 0) Cache.empty).map (fun done =>
      (done.result, done.cache.unfinished, done.cache.functions 1)) = some (.returned 0, [], ⟨[], [], []⟩) := by
    decide +kernel
  obtain ⟨done, hdone, heq⟩ := Option.map_eq_some_iff.mp hrun
  obtain ⟨hresult, hqueue, hfunction⟩ : done.result = .returned 0 ∧ done.cache.unfinished = [] ∧
      done.cache.functions 1 = ⟨[], [], []⟩ := ⟨congrArg (·.1) heq, congrArg (·.2.1) heq, congrArg (·.2.2) heq⟩
  have hfirst : Fresh Cache.empty (moveCall 0) := ⟨rfl, rfl, fun _ _ => List.not_mem_nil⟩
  have hnext : Fresh done.cache (moveCall 1) :=
    ⟨hqueue, congrArg FunctionState.units hfunction, fun _ _ h =>
      List.not_mem_nil ((congrArg FunctionState.stale hfunction : _ = []) ▸ h)⟩
  have hstep : FreshStep Cache.empty (moveCall 0, done) done.cache :=
    ⟨⟨hdone, by rw [hresult]; exact nofun, rfl⟩, hfirst⟩
  exact ⟨done, hdone, (independent_of_freshSteps _ _ (Transition.Run.nil.snoc hstep)).2 (moveCall 1) hnext⟩

/-- A branch over an instruction that has no translator. -/
def branchCall (function : Nat) : Call where
  source := {
    disassembler := fun _ pc =>
      if pc = 0 then ⟨.success, .tBcc, [.imm 0, .imm 0, .reg .cpsr], 2⟩ else ⟨.success, .other 0, [], 2⟩
    memory := fun _ size => (size, [0x00, 0xD0, 0x00, 0xBF].take size)
    entryPc := 0
    pcRanges := [(0, 4)] }
  function := function
  compile _ := .compiled

theorem Independent.trace_eq (h : Independent c call) :
    (instrumentMemoryAccess call c).map (·.trace) = (instrumentMemoryAccess call Cache.empty).map (·.trace) := by
  have htrace := congrArg (Option.map fun view => view.1) h
  rwa [Option.map_map, Option.map_map] at htrace

/-- After a successful call, a call for a new function at the same address uses the units of the old one. After a
    failed call, a call at a new address processes the unit that the failed one left. -/
theorem not_independent :
    (∃ steps c, Transition.Run CallStep Cache.empty steps c ∧ c.unfinished = [] ∧ ¬Independent c (moveCall 0)) ∧
      ∃ steps c, Transition.Run CallStep Cache.empty steps c ∧ c.functions 1 = ⟨[], [], []⟩ ∧
        ¬Independent c (moveCall 1) := by
  have hfirst : (instrumentMemoryAccess (moveCall 0) Cache.empty).map (·.trace) = some [(0, 0), (0, 2)] := by
    decide +kernel
  have hfirst' : (instrumentMemoryAccess (moveCall 1) Cache.empty).map (·.trace) = some [(1, 0), (1, 2)] := by
    decide +kernel
  constructor
  · have hrun : (instrumentMemoryAccess (moveCall 0) Cache.empty).map (fun done =>
        (done.result, done.cache.unfinished, (instrumentMemoryAccess (moveCall 0) done.cache).map (·.trace))) =
        some (.returned 0, [], some []) := by decide +kernel
    obtain ⟨done, hdone, heq⟩ := Option.map_eq_some_iff.mp hrun
    obtain ⟨hresult, hrest⟩ := Prod.mk.inj heq
    obtain ⟨hqueue, htrace⟩ := Prod.mk.inj hrest
    refine ⟨_, _, run_singleton hdone (by rw [hresult]; exact nofun), hqueue, fun h => ?_⟩
    have := h.trace_eq
    rw [htrace, hfirst] at this
    cases this
  · have hrun : (instrumentMemoryAccess (branchCall 0) Cache.empty).map (fun done =>
        (done.result, done.cache.functions 1, (instrumentMemoryAccess (moveCall 1) done.cache).map (·.trace))) =
        some (.returned 0, ⟨[], [], []⟩, some [(0, 4)]) := by decide +kernel
    obtain ⟨done, hdone, heq⟩ := Option.map_eq_some_iff.mp hrun
    obtain ⟨hresult, hrest⟩ := Prod.mk.inj heq
    obtain ⟨hfunction, htrace⟩ := Prod.mk.inj hrest
    refine ⟨_, _, run_singleton hdone (by rw [hresult]; exact nofun), hfunction, fun h => ?_⟩
    have := h.trace_eq
    rw [htrace, hfirst'] at this
    cases this

end Avatar.Translator
