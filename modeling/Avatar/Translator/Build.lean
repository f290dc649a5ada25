import Mathlib.Data.FinEnum
import Avatar.Translator.Graph

/-! The loop of `translate` builds the graph of the program counters that can be reached from the entry. -/

namespace Avatar.Translator

variable {source : Source} {function : Nat}

/-! ### The entry and the exits -/

def loadCode (function : Nat) : List Instr :=
  [.load .i32 (.member (function, .instrumentationFunctions) 0) none,
    .load .i32 (.member (function, .instrumentationFunctions) 1) none] ++
  registerDescription.zipIdx.map fun (_, index) => .load .i32 (.member (function, .processorRegisters) index) none

/-- The handlers are the results 0 and 1, and the registers follow. -/
def loadedValues : Values := registerDescription.zipIdx.map fun (register, index) => (register, .result (index + 2))

def entryValues : Values := loadedValues ++
  [(.flagZ, bit (.result 17) 30), (.flagN, bit (.result 17) 31), (.flagC, bit (.result 17) 29),
    (.flagV, bit (.result 17) 28)]

/-- The registers are loaded one after the other. Each one gets a new key. -/
theorem loadRegisters (function : Nat) (registers : List (Register × Nat)) (code : List Instr) (values : Values)
    (hkeys : (values.map (·.1) ++ registers.map (·.1)).Nodup) :
    (forM registers fun r => do
      EmitM.setValue r.1 (← EmitM.insert (.load .i32 (.member (function, .processorRegisters) r.2) none)) :
        EmitM Unit) ⟨code, values⟩ =
      some ((), ⟨code ++ registers.map fun r => .load .i32 (.member (function, .processorRegisters) r.2) none,
        values ++ (registers.zipIdx code.length).map fun r => (r.1.1, .result r.2)⟩) := by
  induction registers generalizing code values with
  | nil => simp only [List.forM_nil, List.map_nil, List.append_nil, List.zipIdx_nil]; rfl
  | cons r registers ih =>
    have hnew : r.1 ∉ values.map (·.1) := fun h =>
      (List.nodup_append.mp hkeys).2.2 _ h _ (List.mem_cons_self ..) rfl
    have hset : (do EmitM.setValue r.1 (← EmitM.insert (.load .i32 (.member (function, .processorRegisters) r.2) none)) :
        EmitM Unit) ⟨code, values⟩ = some ((), ⟨code ++ [.load .i32 (.member (function, .processorRegisters) r.2) none],
          values ++ [(r.1, .result code.length)]⟩) := by
      have happend : (values ++ []).set r.1 (.result code.length) = values ++ [(r.1, .result code.length)] :=
        Values.set_append hnew
      rw [List.append_nil] at happend
      exact congrArg (fun values => some ((), Emission.mk _ values)) happend
    rw [List.forM_cons, EmitM.bind_apply, hset, Option.bind_some, ih _ _ (by simpa using hkeys)]
    simp

theorem keys_entryValues : entryValues.map (·.1) = valueInformation.map (·.1) := by decide

theorem decodeCpsrToFlags_eq (code : List Instr) :
    decodeCpsrToFlags ⟨code, loadedValues⟩ = some ((), ⟨code, entryValues⟩) := by
  have hcpsr : loadedValues.lookup .cpsr = some (.result 17) := by decide
  have hflags : ∀ flag ∈ [Register.flagZ, .flagN, .flagC, .flagV], flag ∉ loadedValues.map (·.1) := by decide
  rw [← List.append_nil loadedValues] at hcpsr
  rw [← List.append_nil loadedValues]
  simp only [decodeCpsrToFlags, EmitM.bind_apply, EmitM.getValue_apply, EmitM.setValue_apply, hcpsr,
    Option.map_some, Option.bind_some]
  rw [Values.set_append (hflags _ (by decide)), Values.set_append (hflags _ (by decide)),
    Values.set_append (hflags _ (by decide)), Values.set_append (hflags _ (by decide))]
  rfl

theorem genCodeEntry_eq (function : Nat) :
    genCodeEntry function ⟨[], []⟩ = some ((), ⟨loadCode function, entryValues⟩) := by
  have hloaded : (registerDescription.zipIdx.zipIdx 2).map (fun r => (r.1.1, (Ssa.Value.result r.2 : Value))) =
      loadedValues := by decide
  have hload := loadRegisters function registerDescription.zipIdx
    [.load .i32 (.member (function, .instrumentationFunctions) 0) none,
      .load .i32 (.member (function, .instrumentationFunctions) 1) none] [] (by decide)
  simp only [List.nil_append, List.length_cons, List.length_nil, Nat.zero_add, Nat.reduceAdd, hloaded] at hload
  simp only [genCodeEntry, EmitM.bind_apply, EmitM.insert_apply, Option.bind_some, List.nil_append,
    List.singleton_append, hload, decodeCpsrToFlags_eq, loadCode]

/-- `CPSR` with the flags in it. -/
def encodedCpsr : Value :=
  let at' (flag : Register) (i : Int) : Value := .binary .shl (.zext (.phi flag)) (int32 i)
  .binary .or (.binary .and (.phi .cpsr) (int32 0x0FFFFFFF))
    (.binary .or (.binary .or (at' .flagZ 30) (at' .flagN 31)) (.binary .or (at' .flagC 29) (at' .flagV 28)))

def exitValues : Values := initialValues.set .cpsr encodedCpsr

def exitCode (function : Nat) : List Instr :=
  registerDescription.zipIdx.map fun (register, index) =>
    .store (if register = .cpsr then encodedCpsr else .phi register) (.member (function, .processorRegisters) index) none

theorem storeAll (registers : List (Register × Nat)) (code : List Instr) {values : Values} {f : Register → Value}
    (hf : ∀ r ∈ registers, values.lookup r.1 = some (f r.1)) :
    (forM registers fun r => do
      _ ← EmitM.insert (.store (← EmitM.getValue r.1) (.member (function, .processorRegisters) r.2) none) :
        EmitM Unit) ⟨code, values⟩ =
      some ((), ⟨code ++ registers.map fun r => .store (f r.1) (.member (function, .processorRegisters) r.2) none,
        values⟩) := by
  induction registers generalizing code with
  | nil => simp only [List.forM_nil, List.map_nil, List.append_nil]; rfl
  | cons r registers ih =>
    have hr := hf r (List.mem_cons_self ..)
    simp only [List.forM_cons, EmitM.bind_apply, EmitM.getValue_apply, hr, Option.map_some, Option.bind_some,
      EmitM.insert_apply, EmitM.pure_apply, ih _ fun r h => hf r (List.mem_cons_of_mem _ h), List.map_cons,
      List.append_assoc, List.singleton_append]

theorem encodeFlagsToCpsr_eq : encodeFlagsToCpsr ⟨[], initialValues⟩ = some ((), ⟨[], exitValues⟩) := by
  have hlookup (id : Register) (h : id ∈ valueInformation.map (·.1)) := lookup_initialValues id h
  simp only [encodeFlagsToCpsr, EmitM.bind_apply, EmitM.getValue_apply, EmitM.setValue_apply,
    hlookup .cpsr (by decide), hlookup .flagZ (by decide), hlookup .flagN (by decide), hlookup .flagC (by decide),
    hlookup .flagV (by decide), Option.map_some, Option.bind_some]
  rfl

theorem lookup_exitValues : ∀ r ∈ registerDescription.zipIdx,
    exitValues.lookup r.1 = some (if r.1 = .cpsr then encodedCpsr else .phi r.1) := by
  intro r hr
  have hdescribed : ∀ r ∈ registerDescription.zipIdx, r.1 ∈ valueInformation.map (·.1) := by decide
  rw [exitValues]
  split
  · rename_i h
    rw [h, Values.lookup_set_self]
  · rename_i h
    rw [Values.lookup_set_of_ne h, lookup_initialValues _ (hdescribed r hr)]

theorem storeRegisters_eq (function : Nat) :
    storeRegisters function ⟨[], initialValues⟩ = some ((), ⟨exitCode function, exitValues⟩) := by
  rw [storeRegisters, EmitM.bind_apply, encodeFlagsToCpsr_eq, Option.bind_some]
  simp only [storeAll (f := fun id => if id = .cpsr then encodedCpsr else .phi id) _ _ lookup_exitValues,
    List.nil_append, exitCode]

theorem piece_exit {pc : BitVec 64} (h : source.pcRanges.isInRange pc = false) :
    piece source function pc = some ⟨exitCode function, exitValues, .exit⟩ := by
  rw [piece, if_neg (by rw [h]; exact Bool.false_ne_true), storeRegisters_eq]
  rfl

/-! ### The graph when some units have been processed -/

/-- The program counters to which the translation of `pc` leads. -/
def successors (source : Source) (pc : BitVec 64) : List (BitVec 64) :=
  if source.pcRanges.isInRange pc then
    match decode source pc with
    | .ok (some inst) =>
      match instructionTranslator source.memory inst.opcode with
      | some translator => ((translator inst ⟨[], initialValues⟩).map fun r => r.1.targets inst).getD []
      | none => []
    | _ => []
  else []

theorem successors_of_translator {pc : BitVec 64} {inst : MCInst} {translator : MCInst → EmitM Successor}
    {successor : Successor} {e : Emission} (h : source.pcRanges.isInRange pc = true)
    (hdecode : decode source pc = .ok (some inst))
    (htranslator : instructionTranslator source.memory inst.opcode = some translator)
    (he : translator inst ⟨[], initialValues⟩ = some (successor, e)) :
    successors source pc = successor.targets inst := by
  simp only [successors, if_pos h, hdecode, htranslator, he, Option.map_some, Option.getD_some]

theorem successors_eq {pc : BitVec 64} {p : Piece} (h : piece source function pc = some p) :
    successors source pc = p.next.targets := by
  cases hrange : source.pcRanges.isInRange pc with
  | true =>
    rcases piece_of_inRange hrange h with ⟨hdecode, rfl⟩ | ⟨inst, translator, successor, hdecode, htranslator, he, -, hnext⟩
    · simp only [successors, if_pos hrange, hdecode]
      rfl
    · rw [successors_of_translator hrange hdecode htranslator he, Successor.targets_next hnext]
  | false =>
    rw [successors, if_neg (by rw [hrange]; exact Bool.false_ne_true), (piece_of_not_inRange hrange h).2]
    rfl

namespace Graph

def initial (source : Source) (function : Nat) : Graph where
  edges := [⟨0, entryValues, source.entryPc⟩]
  entryCode := loadCode function ++ [.br 1]
  code _ := []

theorem construct_empty (source : Source) (function : Nat) :
    construct source function Cache.empty = .ok () ((initial source function).toCache function 0) := by
  let g : Graph := ⟨[], loadCode function, fun _ => []⟩
  have hmodify : CacheM.modifyFunction function (fun f => { f with blocks := [⟨[], []⟩] }) Cache.empty =
      .ok () (FunctionState.alone ⟨[], [], [⟨[], []⟩]⟩ function 0) := rfl
  have hblock : (FunctionState.mk [] [] [⟨[], []⟩]).blocks[0]? = some ⟨[], []⟩ := rfl
  have hvalues : ∀ v ∈ entryValues, v.1 ∈ valueInformation.map (·.1) := fun v hv =>
    keys_entryValues ▸ List.mem_map_of_mem hv
  have hedge := findCreate_toCache function (g := g) (k := 0) (e := ⟨0, entryValues, source.entryPc⟩) hvalues
    (Nat.zero_le _) fun _ => rfl
  rw [construct, StateExcept.bind_ok hmodify, StateExcept.bind_ok (CacheM.emit_alone hblock (genCodeEntry_eq function))]
  refine CacheM.discard_ok (a := ⟨source.entryPc, (g.addEdge ⟨0, entryValues, source.entryPc⟩).head source.entryPc⟩) ?_
  rw [findCreate_true]
  show (CacheM.findCreate function source.entryPc entryValues 0 false >>= _) (g.toCache function 0) = _
  rw [StateExcept.bind_ok hedge, StateExcept.bind_ok append_entry, head_addEdge_new List.not_mem_nil]
  rfl

variable {g : Graph} {pc pc' : BitVec 64} {p : Piece} {k : Nat}

def pieceEdges (g : Graph) (pc : BitVec 64) (p : Piece) : List Edge :=
  p.next.targets.map fun target => ⟨g.head pc, p.values, target⟩

theorem filter_pieceEdges (n : Nat) :
    (g.pieceEdges pc p).filter (·.source = n) = if g.head pc = n then g.pieceEdges pc p else [] := by
  have hsource : ∀ e ∈ g.pieceEdges pc p, e.source = g.head pc := fun e he => by
    obtain ⟨target, -, rfl⟩ := List.mem_map.mp he
    rfl
  split
  · rename_i h
    exact List.filter_eq_self.mpr fun e he => decide_eq_true ((hsource e he).trans h)
  · rename_i h
    exact List.filter_eq_nil_iff.mpr fun e he heq => h ((hsource e he).symm.trans (of_decide_eq_true heq))

theorem edges_link : (g.link pc p).edges = g.edges ++ g.pieceEdges pc p := rfl

theorem pcs_link : (g.link pc p).pcs = Worklist.meet g.pcs p.next.targets := by
  have htargets : (g.pieceEdges pc p).map (·.target) = p.next.targets := by
    rw [pieceEdges, List.map_map]
    exact List.map_id' _
  rw [pcs, edges_link, List.map_append, Worklist.meet_append, htargets]
  rfl

theorem head_link (h : pc' ∈ g.pcs) : (g.link pc p).head pc' = g.head pc' := by
  obtain ⟨tail, htail⟩ := Worklist.prefix_meet g.pcs p.next.targets
  rw [head, head, pcs_link, ← htail, List.idxOf_append_of_mem h]

theorem pieceEdges_link {p' : Piece} (h : pc' ∈ g.pcs) : (g.link pc p).pieceEdges pc' p' = g.pieceEdges pc' p' := by
  rw [pieceEdges, pieceEdges, head_link h]

theorem code_link : (g.link pc p).code =
    Function.update g.code pc (p.code ++ p.next.terminator (g.link pc p).head) := by
  simp only [link, close, setCode, Function.update_self, Function.update_idem]
  rfl

theorem terminator_congr {head head' : BitVec 64 → Nat} {next : Next}
    (h : ∀ target ∈ next.targets, head target = head' target) : next.terminator head = next.terminator head' := by
  cases next with
  | exit => rfl
  | skip => rfl
  | goto pc => rw [Next.terminator, Next.terminator, h pc (List.mem_cons_self ..)]
  | branch cond ifTrue ifFalse =>
    rw [Next.terminator, Next.terminator, h ifFalse (List.mem_cons_self ..),
      h ifTrue (List.mem_cons_of_mem _ (List.mem_cons_self ..))]

/-- The graph when the first `k` units have been processed. -/
structure Built (source : Source) (function k : Nat) (g : Graph) : Prop where
  explored : Worklist.Explored (successors source) source.entryPc k g.pcs
  entryCode : g.entryCode = loadCode function ++ [.br 1]
  entryEdge : g.edges.filter (·.source = 0) = [⟨0, entryValues, source.entryPc⟩]
  /-- Only units that have been processed have edges. -/
  sources : ∀ e ∈ g.edges, e.source ≤ k
  linked : ∀ pc ∈ g.pcs, g.head pc ≤ k → ∃ p, piece source function pc = some p ∧
    g.code pc = p.code ++ p.next.terminator g.head ∧ g.edges.filter (·.source = g.head pc) = g.pieceEdges pc p
  fresh : ∀ pc, (pc ∈ g.pcs → k < g.head pc) → g.code pc = []

namespace Built

theorem initial (source : Source) (function : Nat) : Built source function 0 (initial source function) where
  explored := .init _ _
  entryCode := rfl
  entryEdge := rfl
  sources e he := by rw [List.mem_singleton.mp he]
  linked _ _ h := absurd h (Nat.not_succ_le_zero _)
  fresh _ _ := rfl

/-- The targets of a unit that has been processed have units. -/
theorem target_mem (h : Built source function k g) (hpc : pc ∈ g.pcs) (hk : g.head pc ≤ k)
    (hp : piece source function pc = some p) {target : BitVec 64} (htarget : target ∈ p.next.targets) :
    target ∈ g.pcs :=
  h.explored.closed _ pc hk (List.getElem?_idxOf hpc) target (successors_eq hp ▸ htarget)

theorem link (h : Built source function k g) (hpc : g.pcs[k]? = some pc)
    (hp : piece source function pc = some p) : Built source function (k + 1) (g.link pc p) := by
  have hhead : g.head pc = k + 1 := head_of_getElem? hpc
  have hmem : pc ∈ g.pcs := List.mem_of_getElem? hpc
  have hk : k < g.pcs.length := (List.getElem?_eq_some_iff.mp hpc).1
  -- A unit of the new graph whose number is at most `k + 1` is an old one.
  have hold (pc' : BitVec 64) (h' : pc' ∈ (g.link pc p).pcs) (hle : (g.link pc p).head pc' ≤ k + 1) :
      pc' ∈ g.pcs := by
    by_contra hnew
    obtain ⟨tail, htail⟩ := Worklist.prefix_meet g.pcs p.next.targets
    rw [head, pcs_link, ← htail, List.idxOf_append_of_notMem hnew] at hle
    omega
  have hstable (pc' : BitVec 64) (h' : pc' ∈ g.pcs) (p' : Piece) (hp' : piece source function pc' = some p')
      (hle : g.head pc' ≤ k) : p'.next.terminator (g.link pc p).head = p'.next.terminator g.head :=
    terminator_congr fun target htarget => head_link (h.target_mem h' hle hp' htarget)
  refine ⟨?_, h.entryCode, ?_, fun e he => ?_, fun pc' h' hle => ?_, fun pc' h' => ?_⟩
  · rw [pcs_link, ← successors_eq hp]
    exact h.explored.step hpc
  · rw [edges_link, List.filter_append, h.entryEdge, filter_pieceEdges,
      if_neg (by rw [hhead]; exact Nat.succ_ne_zero k), List.append_nil]
  · rcases List.mem_append.mp he with he | he
    · exact Nat.le_succ_of_le (h.sources e he)
    · obtain ⟨target, -, rfl⟩ := List.mem_map.mp he
      exact Nat.le_of_eq hhead
  · have hmem' := hold pc' h' hle
    rw [head_link hmem'] at hle
    rw [edges_link, List.filter_append, filter_pieceEdges, code_link, head_link hmem']
    by_cases heq : pc' = pc
    · subst heq
      have hnone : g.edges.filter (·.source = g.head pc') = [] := List.filter_eq_nil_iff.mpr fun e he heq => by
        have := h.sources e he
        rw [of_decide_eq_true heq, hhead] at this
        exact Nat.not_succ_le_self _ this
      exact ⟨p, hp, Function.update_self .., by rw [hnone, if_pos rfl, pieceEdges_link hmem]; rfl⟩
    · have hne : g.head pc ≠ g.head pc' := fun h => heq (head_inj hmem h).symm
      have hle' : g.head pc' ≤ k := Nat.lt_succ_iff.mp (Nat.lt_of_le_of_ne hle fun heq' => hne (hhead.trans heq'.symm))
      obtain ⟨p', hp', hcode, hedges⟩ := h.linked pc' hmem' hle'
      refine ⟨p', hp', ?_, ?_⟩
      · rw [Function.update_of_ne heq, hcode, hstable pc' hmem' p' hp' hle']
      · rw [if_neg hne, List.append_nil, hedges, pieceEdges_link hmem']
  · have hne : pc' ≠ pc := fun heq => by
      subst heq
      have := h' (pcs_link ▸ Worklist.mem_meet.mpr (.inl hmem))
      rw [head_link hmem, hhead] at this
      exact Nat.lt_irrefl _ this
    rw [code_link, Function.update_of_ne hne]
    refine h.fresh pc' fun hmem' => ?_
    have := h' (pcs_link ▸ Worklist.mem_meet.mpr (.inl hmem'))
    rw [head_link hmem'] at this
    exact Nat.lt_of_succ_lt this

end Built

/-! ### The loop -/

/-- A unit whose translation fails ends the loop. -/
theorem process_error {source : Source} (hp : piece source function pc = none) (hpc : pc ∈ g.pcs)
    (hk : k ≤ g.pcs.length) (hnew : ∀ target ∉ g.pcs, g.code target = []) (hcode : g.code pc = []) :
    ∃ failure c, process source function ⟨function, ⟨pc, g.head pc⟩, initialValues, false⟩ (g.toCache function k) =
      .error failure c := by
  cases hrange : source.pcRanges.isInRange pc with
  | false =>
    rw [piece_exit hrange] at hp
    cases hp
  | true =>
    rw [piece, if_pos hrange] at hp
    simp only [process, Bool.false_eq_true, if_false, hrange, if_true, translateSingleInstruction]
    cases hdecode : decode source pc with
    | error failure => exact ⟨_, _, rfl⟩
    | ok inst =>
      rw [hdecode] at hp
      cases inst with
      | none => cases hp
      | some inst =>
        simp only [MonadExcept.ofExcept, pure_bind]
        cases htranslator : instructionTranslator source.memory inst.opcode with
        | none => exact ⟨_, _, rfl⟩
        | some translator =>
          dsimp only
          cases he : translator inst ⟨[], initialValues⟩ with
          | none =>
            rw [StateExcept.bind_error (emit_error hpc (hcode ▸ he))]
            exact ⟨_, _, rfl⟩
          | some r =>
            obtain ⟨successor, e⟩ := r
            rw [StateExcept.bind_ok (emit_head hpc (hcode ▸ he))]
            refine finish_error (g := g.setCode pc e.code) ?_ hk (setCode_new hpc hnew)
            by_contra h
            obtain ⟨hvalues, hnext⟩ := not_or.mp h
            obtain ⟨next, hnext⟩ := Option.ne_none_iff_exists'.mp hnext
            simp only [htranslator, he, Option.bind_eq_bind, Option.bind_some, guard, if_pos (not_not.mp hvalues),
              hnext] at hp
            cases hp

theorem unfinished_toCache (hpc : g.pcs[k]? = some pc) :
    (g.toCache function k).unfinished =
      ⟨function, ⟨pc, g.head pc⟩, initialValues, false⟩ :: (g.toCache function (k + 1)).unfinished := by
  obtain ⟨hk, rfl⟩ := List.getElem?_eq_some_iff.mp hpc
  have hk' : k < g.units.length := by rwa [units, List.length_map]
  have hunit : g.units[k] = ⟨g.pcs[k], g.head g.pcs[k]⟩ := List.getElem_map _
  show ((g.units.drop k).map _) = _
  rw [List.drop_eq_getElem_cons hk', List.map_cons, hunit]
  rfl

theorem unfinished_toCache_nil : (g.toCache function g.pcs.length).unfinished = [] := by
  show ((g.units.drop g.pcs.length).map _) = _
  rw [List.drop_eq_nil_of_le (by rw [units, List.length_map]), List.map_nil]

theorem Built.process (h : Built source function k g) (hpc : g.pcs[k]? = some pc)
    (hp : piece source function pc = some p) :
    process source function ⟨function, ⟨pc, g.head pc⟩, initialValues, false⟩ (g.toCache function (k + 1)) =
      .ok () ((g.link pc p).toCache function (k + 1)) := by
  refine process_toCache hp (List.mem_of_getElem? hpc) (List.getElem?_eq_some_iff.mp hpc).1
    (fun target htarget => h.fresh target fun hmem => absurd hmem htarget) (h.fresh pc fun _ => ?_)
  rw [head_of_getElem? hpc]
  exact Nat.lt_succ_self k

theorem Built.process_error (h : Built source function k g) (hpc : g.pcs[k]? = some pc)
    (hp : piece source function pc = none) : ∃ failure c,
    Translator.process source function ⟨function, ⟨pc, g.head pc⟩, initialValues, false⟩ (g.toCache function (k + 1)) =
      .error failure c := by
  refine Graph.process_error hp (List.mem_of_getElem? hpc) (List.getElem?_eq_some_iff.mp hpc).1
    (fun target htarget => h.fresh target fun hmem => absurd hmem htarget) (h.fresh pc fun _ => ?_)
  rw [head_of_getElem? hpc]
  exact Nat.lt_succ_self k

theorem translateLoop_nil {c : Cache} {fuel : Nat} (h : c.unfinished = []) :
    translateLoop source function fuel c = some ⟨[], none, c⟩ := by
  rw [translateLoop.eq_def]
  simp only [h]

theorem translateLoop_zero {c : Cache} {u : Unfinished} {rest : List Unfinished} (h : c.unfinished = u :: rest) :
    translateLoop source function 0 c = none := by
  rw [translateLoop.eq_def]
  simp only [h]

theorem translateLoop_ok {c c' : Cache} {fuel : Nat} {u : Unfinished} {rest : List Unfinished}
    (h : c.unfinished = u :: rest) (hu : process source function u { c with unfinished := rest } = .ok () c') :
    translateLoop source function (fuel + 1) c = (translateLoop source function fuel c').map fun o =>
      { o with trace := (u.function, u.unit.pc) :: o.trace } := by
  rw [translateLoop.eq_def]
  simp only [h, hu]

theorem translateLoop_error {c c' : Cache} {fuel : Nat} {u : Unfinished} {rest : List Unfinished} {failure : Failure}
    (h : c.unfinished = u :: rest) (hu : process source function u { c with unfinished := rest } = .error failure c') :
    translateLoop source function (fuel + 1) c = some ⟨[(u.function, u.unit.pc)], some failure, c'⟩ := by
  rw [translateLoop.eq_def]
  simp only [h, hu]

/-- The loop ended with all units processed, or at a unit whose translation fails. -/
def Ended (source : Source) (function k : Nat) (g : Graph) (o : Outcome) : Prop :=
  (o.failure = none ∧ ∃ g' : Graph, Built source function g'.pcs.length g' ∧ g.pcs <+: g'.pcs ∧
    o.cache = g'.toCache function g'.pcs.length ∧ o.trace = (g'.pcs.drop k).map (function, ·)) ∨
  (o.failure ≠ none ∧ ∃ pc, Worklist.Reachable (successors source) source.entryPc pc ∧
    piece source function pc = none)

theorem ended_of_length_eq (h : Built source function k g) (hk : k = g.pcs.length) :
    Ended source function k g ⟨[], none, g.toCache function k⟩ := by
  subst hk
  exact .inl ⟨rfl, g, h, List.prefix_refl _, rfl, by rw [List.drop_length]; rfl⟩

theorem length_pcs_le : g.pcs.length ≤ 2 ^ 64 := by
  rw [← FinEnum.card_bitVec 64, FinEnum.card_eq_fintypeCard]
  exact pcs_nodup.length_le_card

theorem prefix_link : g.pcs <+: (g.link pc p).pcs := pcs_link ▸ Worklist.prefix_meet ..

/-- The loop ends after as many iterations as there are units in any graph that it builds. -/
theorem Built.translateLoop_of_bound {bound : Nat}
    (hbound : ∀ (k : Nat) (g : Graph), Built source function k g → g.pcs.length ≤ bound)
    (h : Built source function k g) (fuel : Nat) (hfuel : bound ≤ k + fuel) :
    ∃ o, translateLoop source function fuel (g.toCache function k) = some o ∧ Ended source function k g o := by
  induction fuel generalizing k g with
  | zero =>
    have hk : k = g.pcs.length := Nat.le_antisymm h.explored.visited (Nat.le_trans (hbound k g h) hfuel)
    exact ⟨_, translateLoop_nil (hk ▸ unfinished_toCache_nil), ended_of_length_eq h hk⟩
  | succ fuel ih =>
    rcases Nat.lt_or_ge k g.pcs.length with hk | hk
    · obtain ⟨pc, hpc⟩ : ∃ pc, g.pcs[k]? = some pc := ⟨_, List.getElem?_eq_getElem hk⟩
      cases hp : piece source function pc with
      | some p =>
        obtain ⟨o, ho, hended⟩ := ih (h.link hpc hp) (by rwa [Nat.add_right_comm])
        refine ⟨{ o with trace := (function, pc) :: o.trace }, ?_, ?_⟩
        · rw [translateLoop_ok (unfinished_toCache hpc) (h.process hpc hp), ho]
          rfl
        rcases hended with ⟨hnone, g', hbuilt, hprefix, hcache, htrace⟩ | hfailed
        · have hpc' : g'.pcs[k]? = some pc := by
            obtain ⟨tail, htail⟩ := prefix_link.trans hprefix
            rw [← htail, List.getElem?_append_left hk, hpc]
          obtain ⟨hk', hget⟩ := List.getElem?_eq_some_iff.mp hpc'
          refine .inl ⟨hnone, g', hbuilt, prefix_link.trans hprefix, hcache, ?_⟩
          rw [List.drop_eq_getElem_cons hk', hget, List.map_cons, htrace]
        · exact .inr hfailed
      | none =>
        obtain ⟨failure, c, hc⟩ := h.process_error hpc hp
        refine ⟨_, translateLoop_error (unfinished_toCache hpc) hc, .inr ⟨nofun, pc, ?_, hp⟩⟩
        exact h.explored.reachable pc (List.mem_of_getElem? hpc)
    · have hk' : k = g.pcs.length := Nat.le_antisymm h.explored.visited hk
      exact ⟨_, translateLoop_nil (hk' ▸ unfinished_toCache_nil), ended_of_length_eq h hk'⟩

theorem Built.translateLoop (h : Built source function k g) (fuel : Nat) (hfuel : 2 ^ 64 ≤ k + fuel) :
    ∃ o, translateLoop source function fuel (g.toCache function k) = some o ∧ Ended source function k g o :=
  h.translateLoop_of_bound (fun _ _ _ => length_pcs_le) fuel hfuel

/-! ### The first call of the process -/

theorem mem_pcs_iff (h : Built source function g.pcs.length g) :
    pc ∈ g.pcs ↔ Worklist.Reachable (successors source) source.entryPc pc :=
  h.explored.mem_iff pc

variable {call : Call} {o : Outcome}

theorem instrumentMemoryAccess_empty (hentry : call.source.pcRanges.isInRange call.source.entryPc = true) :
    ∃ o, instrumentMemoryAccess call Cache.empty = some (finishCall call o) ∧
      Ended call.source call.function 0 (initial call.source call.function) o := by
  obtain ⟨o, ho, hended⟩ := (Built.initial call.source call.function).translateLoop (2 ^ 64)
    (Nat.le_of_eq (Nat.zero_add _).symm)
  refine ⟨o, ?_, hended⟩
  have hlength : ((initial call.source call.function).toCache call.function 0).unfinished.length = 1 := rfl
  simp only [instrumentMemoryAccess, construct_empty, if_pos hentry, hlength, Nat.mul_one, ho, Option.map_some]

theorem wrapper_of_finished (hcache : o.cache = g.toCache call.function g.pcs.length) :
    (finishCall call o).wrapper = ⟨[], g.units, g.blocks⟩ := by
  rw [finishCall_wrapper, hcache]
  exact Function.update_self ..

end Graph

end Avatar.Translator
