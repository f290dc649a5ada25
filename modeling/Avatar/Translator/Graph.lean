import Avatar.Lib.Worklist
import Avatar.Translator.BinaryTranslator

/-! The control-flow graph that a translation builds, without blocks and phi nodes: a list of edges in the
    order in which `find_create` is called, and the code of each program counter. `toCache` is the cache
    that this graph stands for, and the operations on the cache are operations on the graph. -/

namespace Avatar.Translator

/-! ### A cache with one function -/

/-- The cache when there is only this function, and `k` of its units have been taken from the queue. -/
def FunctionState.alone (s : FunctionState) (function k : Nat) : Cache where
  functions := Function.update Cache.empty.functions function s
  unfinished := (s.units.drop k).map fun unit => ⟨function, unit, initialValues, false⟩

namespace CacheM
variable {s : FunctionState} {function k head : Nat} {block : BasicBlock} {pc : BitVec 64} {values : Values}
  {unit : TranslationUnit}

theorem getBlocks_alone : getBlocks function (s.alone function k) = .ok s.blocks (s.alone function k) := by
  simp only [getBlocks_eq, FunctionState.alone, Function.update_self]

theorem getBlock_alone (h : s.blocks[head]? = some block) :
    getBlock function head (s.alone function k) = .ok block (s.alone function k) := by
  rw [getBlock, StateExcept.bind_ok getBlocks_alone, h]
  rfl

theorem setBlock_alone : setBlock function head block (s.alone function k) =
    .ok () (FunctionState.alone { s with blocks := s.blocks.set head block } function k) := by
  simp only [setBlock, modifyFunction_eq, FunctionState.alone, Function.update_idem, Function.update_self]

theorem append_alone {instrs : List Instr} (h : s.blocks[head]? = some block) :
    append function head instrs (s.alone function k) =
      .ok () (FunctionState.alone { s with blocks := s.blocks.set head (block.append instrs) } function k) := by
  rw [append, StateExcept.bind_ok (getBlock_alone h), setBlock_alone]

theorem addIncoming_alone {predecessor : Nat} (h : s.blocks[unit.head]? = some block)
    (hvalues : ∀ v ∈ values, v.1 ∈ block.phis.map (·.1)) :
    addIncoming function unit values predecessor (s.alone function k) = .ok ()
      (FunctionState.alone { s with blocks := s.blocks.set unit.head (block.addIncoming values predecessor) }
        function k) := by
  have hall : values.all (fun v => v.1 ∈ block.phis.map (·.1)) = true :=
    List.all_eq_true.mpr fun v hv => decide_eq_true (hvalues v hv)
  rw [addIncoming, StateExcept.bind_ok (getBlock_alone h)]
  simp only [hall]
  exact setBlock_alone

theorem addIncoming_error {predecessor : Nat} (h : s.blocks[unit.head]? = some block)
    (hvalues : ¬∀ v ∈ values, v.1 ∈ block.phis.map (·.1)) :
    addIncoming function unit values predecessor (s.alone function k) = .error .abort (s.alone function k) := by
  have hall : values.all (fun v => v.1 ∈ block.phis.map (·.1)) = false :=
    Bool.eq_false_iff.mpr fun h => hvalues fun v hv => of_decide_eq_true (List.all_eq_true.mp h v hv)
  rw [addIncoming, StateExcept.bind_ok (getBlock_alone h)]
  simp only [hall]
  rfl

theorem find_alone (h : pc ∉ s.stale) :
    find function pc (s.alone function k) = .ok (s.units.find? (·.pc = pc)) (s.alone function k) := by
  have hself : (s.alone function k).functions function = s := Function.update_self ..
  rw [find_eq (hself.symm ▸ h), hself]

theorem create_alone (hk : k ≤ s.units.length) : create function pc (s.alone function k) =
    .ok ⟨pc, s.blocks.length⟩ (FunctionState.alone { s with
      units := s.units ++ [⟨pc, s.blocks.length⟩]
      blocks := s.blocks ++ [⟨valueInformation.map fun v => (v.1, []), []⟩] } function k) := by
  simp only [create_eq, FunctionState.alone, Function.update_idem, Function.update_self,
    List.drop_append_of_le_length hk, List.map_append, List.map_singleton]

theorem emit_alone {α : Type} {m : EmitM α} {a : α} {e : Emission} (h : s.blocks[head]? = some block)
    (hm : m ⟨block.code, values⟩ = some (a, e)) : emit function head values m (s.alone function k) =
      .ok (a, e.values)
        (FunctionState.alone { s with blocks := s.blocks.set head { block with code := e.code } } function k) := by
  rw [emit, StateExcept.bind_ok (getBlock_alone h)]
  simp only [hm]
  rw [StateExcept.bind_ok setBlock_alone]
  rfl

end CacheM

/-! ### Translated instructions -/

inductive Next where
  | exit
  /-- Nowhere: a potentially invalid instruction is not translated. -/
  | skip
  | goto (pc : BitVec 64)
  | branch (cond : Value) (ifTrue ifFalse : BitVec 64)

/-- The targets, in the order in which they are looked up. -/
def Next.targets : Next → List (BitVec 64)
  | exit | skip => []
  | goto pc => [pc]
  | branch _ ifTrue ifFalse => [ifFalse, ifTrue]

def Next.terminator (head : BitVec 64 → Nat) : Next → List Instr
  | exit => [.retVoid]
  | skip => []
  | goto pc => [.br (head pc)]
  | branch cond ifTrue ifFalse => [.condBr cond (head ifTrue) (head ifFalse)]

def Successor.targets (inst : MCInst) : Successor → List (BitVec 64)
  | fallThrough => [inst.nextPc]
  | jump offset => [inst.branchPc offset]
  | branch offset _ => [inst.nextPc, inst.branchPc offset]

/-- Where control goes after a translator that ends in this way; nowhere where the condition throws. -/
def Successor.next (values : Values) (inst : MCInst) : Successor → Option Next
  | fallThrough => some (.goto inst.nextPc)
  | jump offset => some (.goto (inst.branchPc offset))
  | branch offset condition => do
    let cond ← (getCondition values (BitVec.ofInt 32 condition)).join
    return .branch cond (inst.branchPc offset) inst.nextPc

/-- The code of a program counter but for its terminator, and the values that it leaves. -/
structure Piece where
  code : List Instr
  values : Values
  next : Next

/-- The translation of a program counter, if it succeeds. -/
def piece (source : Source) (function : Nat) (pc : BitVec 64) : Option Piece :=
  if source.pcRanges.isInRange pc then
    match decode source pc with
    | .ok (some inst) => do
      let translator ← instructionTranslator source.memory inst.opcode
      let (successor, e) ← translator inst ⟨[], initialValues⟩
      guard (∀ v ∈ e.values, v.1 ∈ valueInformation.map (·.1))
      let next ← successor.next e.values inst
      return ⟨e.code, e.values, next⟩
    | .ok none => some ⟨[], initialValues, .skip⟩
    | .error _ => none
  else do
    let ((), e) ← storeRegisters function ⟨[], initialValues⟩
    return ⟨e.code, e.values, .exit⟩

theorem piece_of_inRange {source : Source} {function : Nat} {pc : BitVec 64} {p : Piece}
    (h : source.pcRanges.isInRange pc = true) (hp : piece source function pc = some p) :
    (decode source pc = .ok none ∧ p = ⟨[], initialValues, .skip⟩) ∨
    ∃ inst translator successor, decode source pc = .ok (some inst) ∧
      instructionTranslator source.memory inst.opcode = some translator ∧
      translator inst ⟨[], initialValues⟩ = some (successor, ⟨p.code, p.values⟩) ∧
      (∀ v ∈ p.values, v.1 ∈ valueInformation.map (·.1)) ∧ successor.next p.values inst = some p.next := by
  rw [piece, if_pos h] at hp
  split at hp
  · rename_i inst hdecode
    obtain ⟨translator, htranslator, hp⟩ := Option.bind_eq_some_iff.mp hp
    obtain ⟨⟨successor, e⟩, he, hp⟩ := Option.bind_eq_some_iff.mp hp
    obtain ⟨⟨⟩, hguard, hp⟩ := Option.bind_eq_some_iff.mp hp
    obtain ⟨next, hnext, hp⟩ := Option.bind_eq_some_iff.mp hp
    cases hp
    have hvalues := (Option.guard_eq_some' _).mp hguard
    exact .inr ⟨inst, translator, successor, hdecode, htranslator, he, hvalues, hnext⟩
  · rename_i hdecode
    cases hp
    exact .inl ⟨hdecode, rfl⟩
  · cases hp

theorem piece_of_translator {source : Source} {function : Nat} {pc : BitVec 64} {inst : MCInst}
    {translator : MCInst → EmitM Successor} {successor : Successor} {e : Emission} {next : Next}
    (h : source.pcRanges.isInRange pc = true) (hdecode : decode source pc = .ok (some inst))
    (htranslator : instructionTranslator source.memory inst.opcode = some translator)
    (he : translator inst ⟨[], initialValues⟩ = some (successor, e))
    (hvalues : ∀ v ∈ e.values, v.1 ∈ valueInformation.map (·.1)) (hnext : successor.next e.values inst = some next) :
    piece source function pc = some ⟨e.code, e.values, next⟩ := by
  simp only [piece, if_pos h, hdecode, htranslator, he, hnext, guard, if_pos hvalues, Option.bind_eq_bind,
    Option.bind_some]
  rfl

theorem Successor.targets_next {values : Values} {inst : MCInst} {successor : Successor} {next : Next}
    (h : successor.next values inst = some next) : next.targets = successor.targets inst := by
  cases successor with
  | fallThrough => cases h; rfl
  | jump offset => cases h; rfl
  | branch offset condition =>
    obtain ⟨cond, -, hnext⟩ := Option.bind_eq_some_iff.mp h
    cases hnext
    rfl

theorem Successor.next_ne_skip {values : Values} {inst : MCInst} {successor : Successor} {next : Next}
    (h : successor.next values inst = some next) : next ≠ .skip := by
  cases successor with
  | fallThrough => cases h; nofun
  | jump offset => cases h; nofun
  | branch offset condition =>
    obtain ⟨cond, -, hnext⟩ := Option.bind_eq_some_iff.mp h
    cases hnext
    nofun

theorem piece_of_not_inRange {source : Source} {function : Nat} {pc : BitVec 64} {p : Piece}
    (h : source.pcRanges.isInRange pc = false) (hp : piece source function pc = some p) :
    storeRegisters function ⟨[], initialValues⟩ = some ((), ⟨p.code, p.values⟩) ∧ p.next = .exit := by
  rw [piece, if_neg (by rw [h]; exact Bool.false_ne_true)] at hp
  obtain ⟨⟨⟨⟩, e⟩, he, hp⟩ := Option.bind_eq_some_iff.mp hp
  cases hp
  exact ⟨he, rfl⟩

/-! ### The graph -/

/-- An edge from the block `source`, with the values that it passes on. -/
structure Edge where
  source : Nat
  values : Values
  target : BitVec 64

structure Graph where
  edges : List Edge
  entryCode : List Instr
  code : BitVec 64 → List Instr

namespace Graph
variable (g : Graph) (pc : BitVec 64)

/-- The program counters, in the order in which their units are created. -/
def pcs : List (BitVec 64) := Worklist.meet [] (g.edges.map (·.target))

def head : Nat := g.pcs.idxOf pc + 1

def incoming (id : Register) : List (Value × Nat) :=
  (g.edges.filter (·.target = pc)).flatMap fun e => (e.values.filter (·.1 = id)).map fun v => (v.2, e.source)

def block : BasicBlock := ⟨valueInformation.map fun v => (v.1, g.incoming pc v.1), g.code pc⟩

def blocks : List BasicBlock := ⟨[], g.entryCode⟩ :: g.pcs.map g.block

def units : List TranslationUnit := g.pcs.map fun pc => ⟨pc, g.head pc⟩

def toCache (function k : Nat) : Cache := FunctionState.alone ⟨[], g.units, g.blocks⟩ function k

def addEdge (e : Edge) : Graph := { g with edges := g.edges ++ [e] }

def setCode (code : List Instr) : Graph := { g with code := Function.update g.code pc code }

variable {g pc} {e : Edge} {code : List Instr}

/-! ### Heads and blocks -/

theorem pcs_nodup : g.pcs.Nodup := Worklist.meet_nodup List.nodup_nil

theorem mem_pcs : pc ∈ g.pcs ↔ ∃ e ∈ g.edges, e.target = pc := by
  rw [pcs, Worklist.mem_meet, List.mem_map, or_iff_right (List.not_mem_nil)]

theorem pcs_addEdge : (g.addEdge e).pcs = if e.target ∈ g.pcs then g.pcs else g.pcs ++ [e.target] := by
  simp only [pcs, addEdge, List.map_append, Worklist.meet_append]
  rfl

theorem mem_addEdge (h : pc ∈ g.pcs) : pc ∈ (g.addEdge e).pcs := by
  obtain ⟨e', he', htarget⟩ := mem_pcs.mp h
  exact mem_pcs.mpr ⟨e', List.mem_append_left _ he', htarget⟩

theorem target_mem_addEdge : e.target ∈ (g.addEdge e).pcs :=
  mem_pcs.mpr ⟨e, List.mem_append_right _ (List.mem_singleton_self e), rfl⟩

theorem head_addEdge (h : pc ∈ g.pcs) : (g.addEdge e).head pc = g.head pc := by
  rw [head, head, pcs_addEdge]
  split
  · rfl
  · rw [List.idxOf_append_of_mem h]

theorem head_addEdge_new (h : e.target ∉ g.pcs) : (g.addEdge e).head e.target = g.pcs.length + 1 := by
  rw [head, pcs_addEdge, if_neg h, List.idxOf_append_of_notMem h, List.idxOf_cons_self]

theorem head_inj {pc' : BitVec 64} (h : pc ∈ g.pcs) (heq : g.head pc = g.head pc') : pc = pc' :=
  (List.idxOf_inj h).mp (Nat.succ.inj heq)

theorem length_blocks : g.blocks.length = g.pcs.length + 1 := by
  rw [blocks, List.length_cons, List.length_map]

theorem getElem?_head (h : pc ∈ g.pcs) : g.blocks[g.head pc]? = some (g.block pc) := by
  rw [blocks, head, List.getElem?_cons_succ, List.getElem?_map, List.getElem?_idxOf h]
  rfl

theorem head_of_getElem? {k : Nat} (h : g.pcs[k]? = some pc) : g.head pc = k + 1 := by
  obtain ⟨hk, rfl⟩ := List.getElem?_eq_some_iff.mp h
  rw [head, pcs_nodup.idxOf_getElem]

theorem find?_units : g.units.find? (·.pc = pc) = if pc ∈ g.pcs then some ⟨pc, g.head pc⟩ else none := by
  rw [units, List.find?_map]
  cases hx : g.pcs.find? ((fun u : TranslationUnit => decide (u.pc = pc)) ∘ fun pc => ⟨pc, g.head pc⟩) with
  | none => rw [if_neg fun h => List.find?_eq_none.mp hx pc h (decide_eq_true rfl)]; rfl
  | some x =>
    obtain rfl : x = pc := by simpa using List.find?_some hx
    rw [if_pos (List.mem_of_find?_eq_some hx)]
    rfl

theorem units_addEdge : (g.addEdge e).units =
    if e.target ∈ g.pcs then g.units else g.units ++ [⟨e.target, g.pcs.length + 1⟩] := by
  have hold : (g.pcs.map fun pc => TranslationUnit.mk pc ((g.addEdge e).head pc)) = g.units :=
    List.map_congr_left fun pc h => by rw [head_addEdge h]
  rw [units, pcs_addEdge]
  split
  · exact hold
  · rename_i h
    rw [List.map_append, hold, List.map_singleton, head_addEdge_new h]

/-- An edge adds entries to the phi nodes of its target. -/
theorem block_addEdge : (g.addEdge e).block =
    Function.update g.block e.target ((g.block e.target).addIncoming e.values e.source) := by
  funext pc
  by_cases h : pc = e.target
  · subst h
    simp [block, incoming, addEdge, Ssa.Block.addIncoming]
  · have h' : ¬e.target = pc := fun heq => h heq.symm
    simp [block, incoming, addEdge, Function.update_of_ne h, h']

theorem blocks_addEdge (h : e.target ∈ g.pcs) : (g.addEdge e).blocks =
    g.blocks.set (g.head e.target) ((g.block e.target).addIncoming e.values e.source) := by
  rw [blocks, pcs_addEdge, if_pos h, block_addEdge, pcs_nodup.map_update, if_pos h]
  rfl

theorem incoming_of_notMem (h : pc ∉ g.pcs) (id : Register) : g.incoming pc id = [] := by
  have : g.edges.filter (·.target = pc) = [] := List.filter_eq_nil_iff.mpr fun e he htarget =>
    h (mem_pcs.mpr ⟨e, he, of_decide_eq_true htarget⟩)
  rw [incoming, this, List.flatMap_nil]

theorem block_of_notMem (h : pc ∉ g.pcs) : g.block pc = ⟨valueInformation.map fun v => (v.1, []), g.code pc⟩ := by
  simp only [block, incoming_of_notMem h]

/-- A target that is met for the first time gets the next block. -/
theorem blocks_addEdge_new (h : e.target ∉ g.pcs) : (g.addEdge e).blocks =
    g.blocks ++ [(g.block e.target).addIncoming e.values e.source] := by
  rw [blocks, pcs_addEdge, if_neg h, block_addEdge, List.map_append, pcs_nodup.map_update, if_neg h,
    List.map_singleton, Function.update_self]
  rfl

theorem block_setCode : (g.setCode pc code).block = Function.update g.block pc { g.block pc with code := code } := by
  funext pc'
  by_cases h : pc' = pc
  · subst h
    simp [block, incoming, setCode]
  · simp [block, incoming, setCode, Function.update_of_ne h]

theorem blocks_setCode (h : pc ∈ g.pcs) : (g.setCode pc code).blocks =
    g.blocks.set (g.head pc) { g.block pc with code := code } := by
  rw [blocks, block_setCode]
  show _ :: g.pcs.map _ = _
  rw [pcs_nodup.map_update, if_pos h]
  rfl

/-! ### The operations on the cache -/

variable {function k : Nat}

theorem emit_head {α : Type} {m : EmitM α} {a : α} {emission : Emission} {values : Values} (h : pc ∈ g.pcs)
    (hm : m ⟨g.code pc, values⟩ = some (a, emission)) :
    CacheM.emit function (g.head pc) values m (g.toCache function k) =
      .ok (a, emission.values) ((g.setCode pc emission.code).toCache function k) := by
  rw [toCache, toCache, CacheM.emit_alone (getElem?_head h) hm, blocks_setCode h]
  rfl

theorem emit_error {α : Type} {m : EmitM α} {values : Values} (h : pc ∈ g.pcs) (hm : m ⟨g.code pc, values⟩ = none) :
    CacheM.emit function (g.head pc) values m (g.toCache function k) = .error .abort (g.toCache function k) := by
  have hm' : m ⟨(g.block pc).code, values⟩ = none := hm
  rw [CacheM.emit, toCache, StateExcept.bind_ok (CacheM.getBlock_alone (getElem?_head h))]
  simp only [hm']
  rfl

theorem append_head {instrs : List Instr} (h : pc ∈ g.pcs) :
    CacheM.append function (g.head pc) instrs (g.toCache function k) =
      .ok () ((g.setCode pc (g.code pc ++ instrs)).toCache function k) := by
  rw [toCache, toCache, CacheM.append_alone (getElem?_head h), blocks_setCode h]
  rfl

theorem append_entry {instrs : List Instr} : CacheM.append function 0 instrs (g.toCache function k) =
    .ok () (toCache { g with entryCode := g.entryCode ++ instrs } function k) := by
  rw [toCache, CacheM.append_alone rfl]
  rfl

theorem length_pcs_addEdge : g.pcs.length ≤ (g.addEdge e).pcs.length := by
  rw [pcs_addEdge]
  split
  · exact Nat.le_refl _
  · rw [List.length_append]
    exact Nat.le_add_right ..

variable (function) in
/-- `find_create` adds an edge. A program counter that is met for the first time has no code. -/
theorem findCreate_toCache (hvalues : ∀ v ∈ e.values, v.1 ∈ valueInformation.map (·.1)) (hk : k ≤ g.pcs.length)
    (hnew : e.target ∉ g.pcs → g.code e.target = []) :
    CacheM.findCreate function e.target e.values e.source false (g.toCache function k) =
      .ok ⟨e.target, (g.addEdge e).head e.target⟩ ((g.addEdge e).toCache function k) := by
  have hphis : ∀ v ∈ e.values, v.1 ∈ (g.block e.target).phis.map (·.1) := by
    rw [block, List.map_map]
    exact hvalues
  have hstale : e.target ∉ (FunctionState.mk [] g.units g.blocks).stale := List.not_mem_nil
  rw [CacheM.findCreate, toCache, StateExcept.bind_ok (CacheM.find_alone hstale), find?_units]
  by_cases h : e.target ∈ g.pcs
  · rw [if_pos h, head_addEdge h]
    dsimp only
    rw [pure_bind, StateExcept.bind_ok (CacheM.addIncoming_alone (getElem?_head h) hphis), toCache,
      blocks_addEdge h, units_addEdge, if_pos h]
    rfl
  · rw [if_neg h, head_addEdge_new h]
    have hk' : k ≤ g.units.length := by rwa [units, List.length_map]
    have hblock : (g.blocks ++ [⟨valueInformation.map fun v => (v.1, []), []⟩])[g.pcs.length + 1]? =
        some (g.block e.target) := by
      rw [← length_blocks, List.getElem?_concat_length, block_of_notMem h, hnew h]
    dsimp only
    rw [StateExcept.bind_ok (CacheM.create_alone hk')]
    dsimp only
    rw [length_blocks, StateExcept.bind_ok (CacheM.addIncoming_alone hblock hphis), toCache, blocks_addEdge_new h,
      units_addEdge, if_neg h, ← length_blocks]
    simp only [List.set_append_right _ _ (Nat.le_refl _), Nat.sub_self, List.set_cons_zero]
    rfl

theorem findCreate_true {function predecessor : Nat} {values : Values} :
    CacheM.findCreate function pc values predecessor true =
      CacheM.findCreate function pc values predecessor false >>= fun unit =>
        CacheM.append function predecessor [.br unit.head] >>= fun _ => pure unit := by
  simp only [CacheM.findCreate, bind_assoc]
  refine congrArg _ (funext fun unit => ?_)
  cases unit <;> simp

/-! ### One unit -/

/-- Add the edges to the targets of `next`, and the terminator. -/
def close (g : Graph) (pc : BitVec 64) (values : Values) (next : Next) : Graph :=
  let g' := { g with edges := g.edges ++ next.targets.map fun target => Edge.mk (g.head pc) values target }
  g'.setCode pc (g.code pc ++ next.terminator g'.head)

def link (g : Graph) (pc : BitVec 64) (p : Piece) : Graph := (g.setCode pc p.code).close pc p.values p.next

variable (function) in
theorem findCreate_error {t : Bool} (hvalues : ¬∀ v ∈ e.values, v.1 ∈ valueInformation.map (·.1))
    (hk : k ≤ g.pcs.length) :
    ∃ c, CacheM.findCreate function e.target e.values e.source t (g.toCache function k) =
      .error .abort c := by
  have hstale : e.target ∉ (FunctionState.mk [] g.units g.blocks).stale := List.not_mem_nil
  rw [CacheM.findCreate, toCache, StateExcept.bind_ok (CacheM.find_alone hstale), find?_units]
  by_cases h : e.target ∈ g.pcs
  · have hphis : ¬∀ v ∈ e.values, v.1 ∈ (g.block e.target).phis.map (·.1) := by
      rw [block, List.map_map]
      exact hvalues
    rw [if_pos h]
    dsimp only
    rw [pure_bind, StateExcept.bind_error (CacheM.addIncoming_error (getElem?_head h) hphis)]
    exact ⟨_, rfl⟩
  · have hk' : k ≤ g.units.length := by rwa [units, List.length_map]
    have hphis : ¬∀ v ∈ e.values, v.1 ∈ (valueInformation.map fun v => (v.1, ([] : List (Value × Nat)))).map (·.1) := by
      rw [List.map_map]
      exact hvalues
    rw [if_neg h]
    dsimp only
    rw [StateExcept.bind_ok (CacheM.create_alone hk')]
    dsimp only
    rw [StateExcept.bind_error (CacheM.addIncoming_error List.getElem?_concat_length hphis)]
    exact ⟨_, rfl⟩

theorem append_addEdge {instrs : List Instr} (h : pc ∈ g.pcs) :
    CacheM.append function (g.head pc) instrs ((g.addEdge e).toCache function k) =
      .ok () (((g.addEdge e).setCode pc (g.code pc ++ instrs)).toCache function k) := by
  rw [← head_addEdge (e := e) h]
  exact append_head (mem_addEdge h)

theorem setCode_eq_self (h : g.code pc = code) : g.setCode pc code = g := by
  rw [setCode, ← h, Function.update_eq_self]

theorem setCode_new (hpc : pc ∈ g.pcs) (hnew : ∀ target ∉ g.pcs, g.code target = []) :
    ∀ target ∉ g.pcs, (g.setCode pc code).code target = [] := fun target h => by
  show Function.update g.code pc code target = []
  rw [Function.update_of_ne (ne_of_mem_of_not_mem hpc h).symm, hnew target h]

theorem link_of_targets_nil {p : Piece} (h : p.next.targets = []) :
    g.link pc p = g.setCode pc (p.code ++ p.next.terminator g.head) := by
  rw [link, close, h]
  simp only [List.map_nil, List.append_nil, setCode, Function.update_self, Function.update_idem]
  rfl

theorem finish_toCache {inst : MCInst} {successor : Successor} {values : Values} {next : Next}
    (h : successor.next values inst = some next) (hvalues : ∀ v ∈ values, v.1 ∈ valueInformation.map (·.1))
    (hpc : pc ∈ g.pcs) (hk : k ≤ g.pcs.length) (hnew : ∀ target ∉ g.pcs, g.code target = []) :
    CacheM.finish function (g.head pc) values inst successor (g.toCache function k) =
      .ok () ((g.close pc values next).toCache function k) := by
  let edge (target : BitVec 64) : Edge := ⟨g.head pc, values, target⟩
  have hedge (target : BitVec 64) :=
    findCreate_toCache function (e := edge target) hvalues hk (hnew target)
  cases successor with
  | fallThrough =>
    cases h
    refine CacheM.discard_ok (a := ⟨inst.nextPc, (g.addEdge (edge inst.nextPc)).head inst.nextPc⟩) ?_
    rw [findCreate_true, StateExcept.bind_ok (hedge _), StateExcept.bind_ok (append_addEdge hpc)]
    rfl
  | jump offset =>
    cases h
    rw [CacheM.finish, StateExcept.bind_ok (hedge _), append_addEdge hpc]
    rfl
  | branch offset condition =>
    obtain ⟨cond, hcond, hnext⟩ := Option.bind_eq_some_iff.mp h
    cases hnext
    let g' := g.addEdge (edge inst.nextPc)
    have hedge' := findCreate_toCache function (e := edge (inst.branchPc offset)) (g := g') hvalues
      (Nat.le_trans hk length_pcs_addEdge) fun h => hnew _ (mt mem_addEdge h)
    rw [CacheM.finish, StateExcept.bind_ok (hedge _), StateExcept.bind_ok hedge', Option.join_eq_some_iff.mp hcond]
    dsimp only
    have hedges : g'.addEdge (edge (inst.branchPc offset)) =
        { g with edges := g.edges ++ [inst.nextPc, inst.branchPc offset].map edge } :=
      congrArg (Graph.mk · g.entryCode g.code) (List.append_assoc ..)
    have hhead : g'.head inst.nextPc = (g'.addEdge (edge (inst.branchPc offset))).head inst.nextPc :=
      (head_addEdge target_mem_addEdge).symm
    rw [← head_addEdge (e := edge inst.nextPc) hpc, append_addEdge (mem_addEdge hpc), hhead, hedges]
    rfl

theorem finish_error {inst : MCInst} {successor : Successor} {values : Values}
    (h : ¬(∀ v ∈ values, v.1 ∈ valueInformation.map (·.1)) ∨ successor.next values inst = none)
    (hk : k ≤ g.pcs.length) (hnew : ∀ target ∉ g.pcs, g.code target = []) :
    ∃ failure c, CacheM.finish function (g.head pc) values inst successor (g.toCache function k) = .error failure c := by
  let edge (target : BitVec 64) : Edge := ⟨g.head pc, values, target⟩
  by_cases hvalues : ∀ v ∈ values, v.1 ∈ valueInformation.map (·.1)
  · have hnext := h.resolve_left (not_not_intro hvalues)
    cases successor with
    | fallThrough => cases hnext
    | jump offset => cases hnext
    | branch offset condition =>
      let g' := g.addEdge (edge inst.nextPc)
      have hedge := findCreate_toCache function (e := edge inst.nextPc) hvalues hk (hnew _)
      have hedge' := findCreate_toCache function (e := edge (inst.branchPc offset)) (g := g') hvalues
        (Nat.le_trans hk length_pcs_addEdge) fun h => hnew _ (mt mem_addEdge h)
      rw [CacheM.finish, StateExcept.bind_ok hedge, StateExcept.bind_ok hedge']
      cases hcond : getCondition values (BitVec.ofInt 32 condition) with
      | none => exact ⟨_, _, rfl⟩
      | some cond =>
        cases cond with
        | none => exact ⟨_, _, rfl⟩
        | some cond =>
          rw [Successor.next, hcond] at hnext
          cases hnext
  · have herror (target : BitVec 64) (terminate : Bool) :=
      findCreate_error function (e := edge target) (t := terminate) hvalues hk
    cases successor with
    | fallThrough =>
      obtain ⟨c, hc⟩ := herror inst.nextPc true
      exact ⟨_, _, CacheM.discard_error hc⟩
    | jump offset =>
      obtain ⟨c, hc⟩ := herror (inst.branchPc offset) false
      rw [CacheM.finish, StateExcept.bind_error hc]
      exact ⟨_, _, rfl⟩
    | branch offset condition =>
      obtain ⟨c, hc⟩ := herror inst.nextPc false
      rw [CacheM.finish, StateExcept.bind_error hc]
      exact ⟨_, _, rfl⟩

/-- What the loop does to the unit of a program counter whose translation succeeds. -/
theorem process_toCache {source : Source} {p : Piece} (hp : piece source function pc = some p) (hpc : pc ∈ g.pcs)
    (hk : k ≤ g.pcs.length) (hnew : ∀ target ∉ g.pcs, g.code target = []) (hcode : g.code pc = []) :
    process source function ⟨function, ⟨pc, g.head pc⟩, initialValues, false⟩ (g.toCache function k) =
      .ok () ((g.link pc p).toCache function k) := by
  cases hrange : source.pcRanges.isInRange pc with
  | true =>
    rcases piece_of_inRange hrange hp with ⟨hdecode, rfl⟩ |
      ⟨inst, translator, successor, hdecode, htranslator, he, hvalues, hnext⟩
    · have hlink : g.link pc ⟨[], initialValues, .skip⟩ = g :=
        (link_of_targets_nil rfl).trans (setCode_eq_self hcode)
      simp only [process, Bool.false_eq_true, if_false, hrange, if_true, translateSingleInstruction, hdecode,
        MonadExcept.ofExcept, hlink]
      rfl
    simp only [process, Bool.false_eq_true, if_false, pure_bind, hrange, if_true, translateSingleInstruction,
      hdecode, MonadExcept.ofExcept, htranslator]
    rw [StateExcept.bind_ok (emit_head hpc (hcode ▸ he))]
    exact finish_toCache (g := g.setCode pc p.code) hnext hvalues hpc hk (setCode_new hpc hnew)
  | false =>
    obtain ⟨he, hnext⟩ := piece_of_not_inRange hrange hp
    have hexit : genCodeExit function ⟨g.code pc, initialValues⟩ = some ((), ⟨p.code ++ [.retVoid], p.values⟩) := by
      rw [hcode, genCodeExit, EmitM.bind_apply, he]
      rfl
    simp only [process, Bool.false_eq_true, if_false, hrange]
    refine CacheM.discard_ok (a := ((), p.values)) ?_
    rw [emit_head hpc hexit, link_of_targets_nil (by rw [hnext]; rfl), hnext]
    rfl


end Graph

end Avatar.Translator
