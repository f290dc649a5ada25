import Avatar.Lib.Transition
import Avatar.Translator.Pieces

/-! The loop of `translate` keeps the graph well formed, from an empty cache: there is one unit and one head
    block for each program counter, each unit is queued once, and a phi node has one entry for each edge.
    At the end each block has one terminator.

    The number of edges is that of the terminators' targets, so an edge is there when the terminator is. The
    phi nodes of a unit whose block has been translated are still extended when other units jump to it. -/

namespace Avatar.Translator

variable {source : Source} {function : Nat} {c c' : Cache}

/-- One iteration of the loop: the unit `u` at the front of the queue is processed. -/
def Iteration (source : Source) (function : Nat) (c : Cache) (u : Unfinished) (c' : Cache) : Prop :=
  ∃ rest, c.unfinished = u :: rest ∧ process source function u { c with unfinished := rest } = .ok () c'

/-- A unit is processed without an exception, and its translator leaves a value for each register and flag. -/
structure Proceeds (source : Source) (function : Nat) (u : Unfinished) (c : Cache) : Prop where
  ok : ∃ c', process source function u c = .ok () c'
  keys : ∀ inst translator, source.pcRanges.isInRange u.unit.pc = true → decode source u.unit.pc = .ok (some inst) →
    instructionTranslator source.memory inst.opcode = some translator →
    ∃ successor values c', CacheM.emit u.function u.unit.head u.values (translator inst) c = .ok (successor, values) c' ∧
      values.map (·.1) = valueInformation.map (·.1)

/-- There is a phi node for each register and flag, and it has one entry for each edge into the block `head`. -/
def PhisComplete (blocks : List BasicBlock) (head : Nat) : Prop :=
  ∃ block, blocks[head]? = some block ∧ block.phis.map (·.1) = valueInformation.map (·.1) ∧
    ∀ phi ∈ block.phis, (∀ v ∈ phi.2, v.2 < blocks.length) ∧
      ∀ (b : Nat) (pred : BasicBlock), blocks[b]? = some pred →
        phi.2.countP (·.2 = b) = pred.targets.count head

structure WellFormedGraph (source : Source) (function : Nat) (processed : List Unfinished) (c : Cache) : Prop where
  others : ∀ f, f ≠ function → c.functions f = ⟨[], [], []⟩
  pc_nodup : ((c.functions function).units.map (·.pc)).Nodup
  head_nodup : ((c.functions function).units.map (·.head)).Nodup
  /-- Every block but the entry is a head block. -/
  heads : ∀ b, b ∈ (c.functions function).units.map (·.head) ↔ 0 < b ∧ b < (c.functions function).blocks.length
  queued : (processed ++ c.unfinished).map (·.unit) = (c.functions function).units
  queue : ∀ u ∈ c.unfinished, u.function = function ∧ u.deleted = false ∧
    u.values.map (·.1) = valueInformation.map (·.1)
  next : ∀ u rest, c.unfinished = u :: rest → source.DecodesInRanges u.unit.pc →
    Proceeds source function u { c with unfinished := rest }
  phis : ∀ unit ∈ (c.functions function).units, PhisComplete (c.functions function).blocks unit.head
  terminated : c.unfinished = [] → ∀ block ∈ (c.functions function).blocks, block.Terminated

/-! ### Edges and entries -/

namespace Graph
variable {g : Graph} {k : Nat} {pc : BitVec 64} {id : Register}

/-- An edge whose values are those of all registers adds one entry to a phi node. -/
theorem countP_values {values : Values} (hkeys : values.map (·.1) = valueInformation.map (·.1))
    (hid : id ∈ valueInformation.map (·.1)) : (values.filter (·.1 = id)).length = 1 := by
  have hnodup : (valueInformation.map (·.1)).Nodup := by decide
  have hcount : (values.map (·.1)).count id = 1 :=
    hkeys ▸ List.count_eq_one_of_mem hnodup hid
  rw [← hcount, List.count, List.countP_map, List.countP_eq_length_filter]
  rfl

theorem countP_incoming (hkeys : ∀ e ∈ g.edges, e.values.map (·.1) = valueInformation.map (·.1))
    (hid : id ∈ valueInformation.map (·.1)) (b : Nat) :
    (g.incoming pc id).countP (·.2 = b) = (g.edges.filter (·.source = b)).countP (·.target = pc) := by
  rw [incoming]
  generalize g.edges = edges at hkeys
  induction edges with
  | nil => rfl
  | cons e edges ih =>
    have hentries : (((e.values.filter (·.1 = id)).map fun v => (v.2, e.source)).countP fun v => v.2 = b) =
        if e.source = b then 1 else 0 := by
      rw [List.countP_map]
      split
      · rename_i h
        rw [← countP_values (hkeys e (List.mem_cons_self ..)) hid]
        exact List.countP_eq_length.mpr fun _ _ => decide_eq_true h
      · rename_i h
        exact List.countP_eq_zero.mpr fun _ _ heq => h (of_decide_eq_true heq)
    have ih' := ih fun e he => hkeys e (List.mem_cons_of_mem _ he)
    by_cases htarget : e.target = pc
    · simp only [List.filter_cons, decide_eq_true_eq, if_pos htarget, List.flatMap_cons, List.countP_append, hentries,
        ih']
      split
      · rw [List.countP_cons, Nat.add_comm, if_pos (decide_eq_true htarget)]
      · rw [Nat.zero_add]
    · simp only [List.filter_cons, decide_eq_true_eq, if_neg htarget, ih']
      split
      · rw [List.countP_cons, if_neg (mt of_decide_eq_true htarget), Nat.add_zero]
      · rfl

/-- The edges of a terminator are those of the piece. -/
theorem count_terminator {next : Next} (h : ∀ target ∈ next.targets, target ∈ g.pcs) :
    ((next.terminator g.head).flatMap Ssa.Instr.targets).count (g.head pc) = next.targets.count pc := by
  have hinj : ∀ target ∈ next.targets, g.head target = g.head pc ↔ target = pc := fun target htarget =>
    ⟨head_inj (h target htarget), congrArg _⟩
  cases next with
  | exit | skip => rfl
  | goto target =>
    have := hinj target (List.mem_cons_self ..)
    simp [Next.terminator, Next.targets, Ssa.Instr.targets, List.count_cons, this]
  | branch cond ifTrue ifFalse =>
    have hfalse := hinj ifFalse (List.mem_cons_self ..)
    have htrue := hinj ifTrue (List.mem_cons_of_mem _ (List.mem_cons_self ..))
    simp [Next.terminator, Next.targets, Ssa.Instr.targets, List.count_cons, htrue, hfalse, Nat.add_comm]

namespace Built

/-- The blocks that have been translated have closed pieces. -/
def Closed (source : Source) (function k : Nat) (g : Graph) : Prop :=
  ∀ pc ∈ g.pcs, g.head pc ≤ k → ∃ p, piece source function pc = some p ∧ p.Closed

variable (h : Built source function k g) (hclosed : Closed source function k g)
include h hclosed

theorem keys_edge : ∀ e ∈ g.edges, e.values.map (·.1) = valueInformation.map (·.1) := by
  intro e he
  cases hsource : e.source with
  | zero =>
    have hmem : e ∈ g.edges.filter (·.source = 0) := List.mem_filter.mpr ⟨he, decide_eq_true hsource⟩
    rw [h.entryEdge, List.mem_singleton] at hmem
    rw [hmem]
    exact keys_entryValues
  | succ j =>
    have hj : j + 1 ≤ k := hsource ▸ h.sources e he
    obtain ⟨pc, hpc⟩ : ∃ pc, g.pcs[j]? = some pc :=
      ⟨_, List.getElem?_eq_getElem (Nat.lt_of_lt_of_le hj h.explored.visited)⟩
    have hhead := head_of_getElem? hpc
    have hmem := List.mem_of_getElem? hpc
    obtain ⟨p, hp, hp'⟩ := hclosed pc hmem (hhead ▸ hj)
    obtain ⟨p', hp'', -, hedges⟩ := h.linked pc hmem (hhead ▸ hj)
    obtain rfl : p = p' := Option.some.inj (hp ▸ hp'')
    have hmem' : e ∈ g.edges.filter (·.source = g.head pc) :=
      List.mem_filter.mpr ⟨he, decide_eq_true (hsource.trans hhead.symm)⟩
    rw [hedges] at hmem'
    obtain ⟨_, -, rfl⟩ := List.mem_map.mp hmem'
    exact hp'.keys

/-- A block has one edge for each target of its terminator. -/
theorem countP_edges {b : Nat} {pred : BasicBlock} (hb : g.blocks[b]? = some pred) :
    (g.edges.filter (·.source = b)).countP (·.target = pc) = pred.targets.count (g.head pc) := by
  cases b with
  | zero =>
    cases hb
    have hentry : g.head source.entryPc = 1 := head_of_getElem? h.explored.first
    have hmem := List.mem_of_getElem? h.explored.first
    rw [h.entryEdge, Ssa.Block.targets, h.entryCode, List.flatMap_append, ← hentry]
    exact (@count_terminator g pc (.goto source.entryPc) fun target htarget =>
      List.mem_singleton.mp htarget ▸ hmem).symm
  | succ j =>
    rw [blocks, List.getElem?_cons_succ, List.getElem?_map] at hb
    obtain ⟨pc', hpc', rfl⟩ := Option.map_eq_some_iff.mp hb
    have hhead := head_of_getElem? hpc'
    have hmem := List.mem_of_getElem? hpc'
    rw [← hhead]
    rcases Nat.lt_or_ge k (g.head pc') with hk | hk
    · have hcode : (g.block pc').targets = [] := by
        rw [Ssa.Block.targets, block, h.fresh pc' fun _ => hk]
        rfl
      rw [hcode, List.count_nil, List.countP_eq_zero]
      intro e he
      obtain ⟨he, hsource⟩ := List.mem_filter.mp he
      have := h.sources e he
      rw [of_decide_eq_true hsource] at this
      exact absurd hk (Nat.not_lt.mpr this)
    · obtain ⟨p, hp, hcode, hedges⟩ := h.linked pc' hmem hk
      obtain ⟨p', hp', hclosed'⟩ := hclosed pc' hmem hk
      obtain rfl : p = p' := Option.some.inj (hp ▸ hp')
      have hnone : p.code.flatMap Ssa.Instr.targets = [] := List.flatMap_eq_nil_iff.mpr fun instr hinstr => by
        have := hclosed'.code instr hinstr
        cases instr with
        | load _ _ _ | store _ _ _ => rfl
        | br _ | condBr _ _ _ | retVoid => cases this
      rw [hedges, Ssa.Block.targets, block, hcode, List.flatMap_append, hnone, List.nil_append,
        count_terminator fun target => h.target_mem hmem hk hp, pieceEdges, List.countP_map]
      rfl

theorem phisComplete (hpc : pc ∈ g.pcs) : PhisComplete g.blocks (g.head pc) := by
  refine ⟨g.block pc, getElem?_head hpc, List.map_map, fun phi hphi => ⟨fun v hv => ?_, fun b pred hb => ?_⟩⟩
  · obtain ⟨info, -, rfl⟩ := List.mem_map.mp hphi
    obtain ⟨e, he, hv⟩ := List.mem_flatMap.mp hv
    obtain ⟨_, -, rfl⟩ := List.mem_map.mp hv
    rw [length_blocks, Nat.lt_succ_iff]
    exact Nat.le_trans (h.sources e (List.mem_of_mem_filter he)) h.explored.visited
  · obtain ⟨info, hinfo, rfl⟩ := List.mem_map.mp hphi
    rw [countP_incoming (keys_edge h hclosed) (List.mem_map_of_mem hinfo), countP_edges h hclosed hb]

/-- When every unit has been processed each block has one terminator. -/
theorem terminated (hk : k = g.pcs.length) : ∀ block ∈ g.blocks, block.Terminated := by
  intro block hblock
  rcases List.mem_cons.mp hblock with rfl | hblock
  · refine ⟨_, _, h.entryCode, rfl, fun instr hinstr => ?_⟩
    simp only [loadCode, List.mem_append, List.mem_cons, List.mem_map, List.not_mem_nil, or_false] at hinstr
    rcases hinstr with (rfl | rfl) | ⟨_, -, rfl⟩ <;> rfl
  · obtain ⟨pc, hpc, rfl⟩ := List.mem_map.mp hblock
    have hle : g.head pc ≤ k := hk ▸ List.idxOf_lt_length_iff.mpr hpc
    obtain ⟨p, hp, hcode, -⟩ := h.linked pc hpc hle
    obtain ⟨p', hp', hclosed'⟩ := hclosed pc hpc hle
    obtain rfl : p = p' := Option.some.inj (hp ▸ hp')
    obtain ⟨terminator, hterminator, his⟩ := Next.exists_terminator hclosed'.next_ne_skip g.head
    exact ⟨p.code, terminator, by rw [block, hcode, hterminator], his, hclosed'.code⟩

end Built

/-! ### Iterations -/

/-- The unit at the front of the queue, and the cache without it. -/
theorem front_of_unfinished {u : Unfinished} {rest : List Unfinished}
    (h : (g.toCache function k).unfinished = u :: rest) :
    ∃ pc, g.pcs[k]? = some pc ∧ u = ⟨function, ⟨pc, g.head pc⟩, initialValues, false⟩ ∧
      ({ g.toCache function k with unfinished := rest } : Cache) = g.toCache function (k + 1) := by
  rcases Nat.lt_or_ge k g.pcs.length with hk | hk
  · obtain ⟨pc, hpc⟩ : ∃ pc, g.pcs[k]? = some pc := ⟨_, List.getElem?_eq_getElem hk⟩
    rw [unfinished_toCache hpc] at h
    obtain ⟨hu, rfl⟩ := List.cons.inj h
    exact ⟨pc, hpc, hu.symm, rfl⟩
  · have hnil : (g.toCache function k).unfinished = [] := by
      show ((g.units.drop k).map _) = _
      rw [List.drop_eq_nil_of_le (by rwa [units, List.length_map]), List.map_nil]
    rw [hnil] at h
    cases h

theorem units_getElem? (h : g.pcs[k]? = some pc) : g.units[k]? = some ⟨pc, g.head pc⟩ := by
  rw [units, List.getElem?_map, h]
  rfl

theorem units_link {p : Piece} : g.units <+: (g.link pc p).units := by
  obtain ⟨tail, htail⟩ : g.pcs <+: (g.link pc p).pcs := prefix_link
  refine ⟨tail.map fun pc' => ⟨pc', (g.link pc p).head pc'⟩, ?_⟩
  rw [units, units, ← htail, List.map_append]
  exact congrArg (· ++ _) (List.map_congr_left fun pc' h => by rw [head_link h])

theorem closed_of_processed {us : List Unfinished} (hconforms : source.disassembler.Conforms)
    (hunits : us.map (·.unit) = g.units.take k) (hok : ∀ u ∈ us, source.DecodesInRanges u.unit.pc) :
    Built.Closed source function k g := by
  intro pc hpc hk
  have htake : (g.units.take k)[g.pcs.idxOf pc]? = some ⟨pc, g.head pc⟩ := by
    rw [List.getElem?_take_of_lt hk, units_getElem? (List.getElem?_idxOf hpc)]
  obtain ⟨u, hu, hunit⟩ := List.mem_map.mp (hunits ▸ List.mem_of_getElem? htake)
  have := hok u hu
  rw [hunit] at this
  exact piece_closed this hconforms function

theorem built_of_run {us : List Unfinished} (hconforms : source.disassembler.Conforms)
    (hrun : Transition.Run (Iteration source function) ((initial source function).toCache function 0) us c)
    (hok : ∀ u ∈ us, source.DecodesInRanges u.unit.pc) :
    ∃ g : Graph, Built source function us.length g ∧ c = g.toCache function us.length ∧
      us.map (·.unit) = g.units.take us.length := by
  induction hrun with
  | nil => exact ⟨_, .initial source function, rfl, rfl⟩
  | @snoc us _ u _ _ hstep ih =>
    obtain ⟨g, hbuilt, rfl, hunits⟩ := ih fun u hu => hok u (List.mem_append_left _ hu)
    obtain ⟨rest, hqueue, hprocess⟩ := hstep
    obtain ⟨pc, hpc, rfl, hcache⟩ := front_of_unfinished hqueue
    obtain ⟨p, hp, -⟩ := piece_closed (hok _ (List.mem_append_right _ (List.mem_singleton_self _))) hconforms function
    rw [hcache, hbuilt.process hpc hp] at hprocess
    cases hprocess
    obtain ⟨tail, htail⟩ : g.units <+: (g.link pc p).units := units_link
    have hunit := units_getElem? hpc
    obtain ⟨hlt, -⟩ := List.getElem?_eq_some_iff.mp hunit
    rw [List.length_append, List.length_singleton]
    refine ⟨g.link pc p, hbuilt.link hpc hp, rfl, ?_⟩
    rw [List.map_append, hunits, List.map_singleton, ← htail, List.take_append_of_le_length hlt, List.take_add_one,
      hunit]
    rfl

end Graph

open Avatar.Translator.Graph

/-! ### The well-formed graph -/

theorem proceeds_of_built {g : Graph} {k : Nat} {pc : BitVec 64} (hconforms : source.disassembler.Conforms)
    (hbuilt : Built source function k g) (hpc : g.pcs[k]? = some pc) (hok : source.DecodesInRanges pc) :
    Proceeds source function ⟨function, ⟨pc, g.head pc⟩, initialValues, false⟩ (g.toCache function (k + 1)) := by
  obtain ⟨p, hp, hclosed⟩ := piece_closed hok hconforms function
  refine ⟨⟨_, hbuilt.process hpc hp⟩, fun inst translator hrange hdecode htranslator => ?_⟩
  rcases piece_of_inRange hrange hp with ⟨hnone, -⟩ | ⟨inst', translator', successor, hdecode', htranslator', he, -, -⟩
  · rw [hdecode] at hnone
    cases hnone
  · rw [hdecode] at hdecode'
    cases hdecode'
    rw [htranslator] at htranslator'
    cases htranslator'
    have hcode : g.code pc = [] := hbuilt.fresh pc fun _ => by
      rw [head_of_getElem? hpc]
      exact Nat.lt_succ_self k
    exact ⟨successor, p.values, _, emit_head (List.mem_of_getElem? hpc) (hcode ▸ he), hclosed.keys⟩

theorem wellFormedGraph_of_built {g : Graph} {us : List Unfinished} (hconforms : source.disassembler.Conforms)
    (hbuilt : Built source function us.length g) (hunits : us.map (·.unit) = g.units.take us.length)
    (hok : ∀ u ∈ us, source.DecodesInRanges u.unit.pc) :
    WellFormedGraph source function us (g.toCache function us.length) := by
  have hclosed : Built.Closed source function us.length g := closed_of_processed hconforms hunits hok
  have hfunction : (g.toCache function us.length).functions function = ⟨[], g.units, g.blocks⟩ :=
    Function.update_self ..
  have hpcs : g.units.map (·.pc) = g.pcs := by rw [units, List.map_map]; exact List.map_id' _
  have hheads : g.units.map (·.head) = g.pcs.map g.head := by rw [units, List.map_map]; rfl
  have hqueue : ((g.toCache function us.length).unfinished).map (·.unit) = g.units.drop us.length := by
    show (List.map _ _).map _ = _
    rw [List.map_map]
    exact List.map_id' _
  constructor
  case others => exact fun f hf => Function.update_of_ne hf ..
  case pc_nodup => exact hfunction ▸ hpcs ▸ pcs_nodup
  case head_nodup =>
    rw [hfunction]
    exact hheads ▸ pcs_nodup.map_on fun pc hpc pc' _ heq => head_inj hpc heq
  case heads =>
    intro b
    rw [hfunction]
    show b ∈ g.units.map (·.head) ↔ 0 < b ∧ b < g.blocks.length
    rw [hheads, length_blocks]
    constructor
    · intro hb
      obtain ⟨pc, hpc, rfl⟩ := List.mem_map.mp hb
      exact ⟨Nat.succ_pos _, Nat.succ_lt_succ (List.idxOf_lt_length_iff.mpr hpc)⟩
    · rintro ⟨hpos, hlt⟩
      obtain ⟨j, rfl⟩ := Nat.exists_eq_succ_of_ne_zero hpos.ne'
      have hpc := List.getElem?_eq_getElem (Nat.lt_of_succ_lt_succ hlt)
      exact List.mem_map.mpr ⟨_, List.mem_of_getElem? hpc, head_of_getElem? hpc⟩
  case queued => rw [hfunction, List.map_append, hunits, hqueue, List.take_append_drop]
  case queue =>
    intro u hu
    obtain ⟨unit, -, rfl⟩ := List.mem_map.mp hu
    exact ⟨rfl, rfl, Emission.typed_initial.keys⟩
  case next =>
    intro u rest hu hok'
    obtain ⟨pc, hpc, rfl, hcache⟩ := front_of_unfinished hu
    exact hcache ▸ proceeds_of_built hconforms hbuilt hpc hok'
  case phis =>
    intro unit hunit
    rw [hfunction] at hunit ⊢
    obtain ⟨pc, hpc, rfl⟩ := List.mem_map.mp hunit
    exact hbuilt.phisComplete hclosed hpc
  case terminated =>
    intro hnil
    rw [hfunction]
    refine hbuilt.terminated hclosed (Nat.le_antisymm hbuilt.explored.visited ?_)
    have hdrop : g.units.drop us.length = [] := by rw [← hqueue, hnil, List.map_nil]
    rwa [List.drop_eq_nil_iff, units, List.length_map] at hdrop

/-- What a call of the loop did: iterations, and one unit at which it failed if it did. -/
theorem run_of_translateLoop {fuel : Nat} {o : Outcome} (h : translateLoop source function fuel c = some o) :
    ∃ us c', Transition.Run (Iteration source function) c us c' ∧
      ((o = ⟨us.map fun u => (u.function, u.unit.pc), none, c'⟩ ∧ c'.unfinished = []) ∨
        ∃ u rest failure c'', c'.unfinished = u :: rest ∧
          process source function u { c' with unfinished := rest } = .error failure c'' ∧
          o = ⟨(us ++ [u]).map fun u => (u.function, u.unit.pc), some failure, c''⟩) := by
  induction fuel generalizing c o with
  | zero =>
    cases hqueue : c.unfinished with
    | nil =>
      rw [translateLoop_nil hqueue] at h
      cases h
      exact ⟨[], c, .nil, .inl ⟨rfl, hqueue⟩⟩
    | cons u rest =>
      rw [translateLoop_zero hqueue] at h
      cases h
  | succ fuel ih =>
    cases hqueue : c.unfinished with
    | nil =>
      rw [translateLoop_nil hqueue] at h
      cases h
      exact ⟨[], c, .nil, .inl ⟨rfl, hqueue⟩⟩
    | cons u rest =>
      cases hprocess : process source function u { c with unfinished := rest } with
      | ok _ c₁ =>
        rw [translateLoop_ok hqueue hprocess] at h
        obtain ⟨o', ho', rfl⟩ := Option.map_eq_some_iff.mp h
        obtain ⟨us, c', hrun, hcases⟩ := ih ho'
        refine ⟨u :: us, c', .cons ⟨rest, hqueue, hprocess⟩ hrun, ?_⟩
        rcases hcases with ⟨rfl, hnil⟩ | ⟨u', rest', failure, c'', hqueue', hprocess', rfl⟩
        · exact .inl ⟨rfl, hnil⟩
        · exact .inr ⟨u', rest', failure, c'', hqueue', hprocess', rfl⟩
      | error failure c'' =>
        rw [translateLoop_error hqueue hprocess] at h
        cases h
        exact ⟨[], c, .nil, .inr ⟨u, rest, failure, c'', hqueue, hprocess, rfl⟩⟩

/-- From an empty cache the construction succeeds and the loop ends, for every disassembler that lays out
    operands as `WellFormed` says. The graph is well formed after every iteration, as long as each unit in the
    ranges decoded with success and had a translator; the loop then ends with an empty queue. -/
theorem wellFormedGraph (hconforms : source.disassembler.Conforms) :
    ∃ c, construct source function Cache.empty = .ok () c ∧
      (∃ e, genCodeEntry function ⟨[], []⟩ = some ((), e) ∧ e.values.map (·.1) = valueInformation.map (·.1)) ∧
      (∀ us c', Transition.Run (Iteration source function) c us c' → (∀ u ∈ us, source.DecodesInRanges u.unit.pc) →
        WellFormedGraph source function us c') ∧
      ∃ o, translateLoop source function (2 ^ 64) c = some o ∧ ((∀ unit ∈ o.trace, source.DecodesInRanges unit.2) →
        o.failure = none ∧ o.cache.unfinished = [] ∧
          ∀ block ∈ (o.cache.functions function).blocks, block.Terminated) := by
  have hgraph (us : List Unfinished) (c' : Cache)
      (hrun : Transition.Run (Iteration source function) ((initial source function).toCache function 0) us c')
      (hok : ∀ u ∈ us, source.DecodesInRanges u.unit.pc) : WellFormedGraph source function us c' := by
    obtain ⟨g, hbuilt, rfl, hunits⟩ := built_of_run hconforms hrun hok
    exact wellFormedGraph_of_built hconforms hbuilt hunits hok
  obtain ⟨o, ho, -⟩ := (Built.initial source function).translateLoop (2 ^ 64) (Nat.le_add_left ..)
  refine ⟨_, construct_empty source function, ⟨_, genCodeEntry_eq function, keys_entryValues⟩, hgraph, o, ho,
    fun hok => ?_⟩
  obtain ⟨us, c', hrun, ⟨rfl, hnil⟩ | ⟨u, rest, failure, c'', hqueue, hprocess, rfl⟩⟩ := run_of_translateLoop ho
  · have hwell := hgraph us c' hrun fun u hu => hok _ (List.mem_map_of_mem hu)
    exact ⟨rfl, hnil, hwell.terminated hnil⟩
  · -- The unit at which the loop failed would have been processed.
    have hwell := hgraph us c' hrun fun u hu => hok _ (List.mem_map_of_mem (List.mem_append_left _ hu))
    have hmem : u ∈ us ++ [u] := List.mem_append_right _ (List.mem_singleton_self u)
    obtain ⟨c₁, hc₁⟩ := (hwell.next u rest hqueue (hok _ (List.mem_map_of_mem hmem))).ok
    rw [hprocess] at hc₁
    cases hc₁

/-- In the loop of `countdown` the branch completes the phi nodes of a unit that has been translated. -/
theorem wellFormedGraph_countdown : ∃ c o, construct countdown 0 Cache.empty = .ok () c ∧
    translateLoop countdown 0 (2 ^ 64) c = some o ∧ o.trace = [(0, 0), (0, 2), (0, 4)] ∧ o.failure = none ∧
    o.cache.unfinished = [] ∧ ∀ block ∈ (o.cache.functions 0).blocks, block.Terminated := by
  obtain ⟨c, hc, -, -, o, ho, hend⟩ := @wellFormedGraph countdown 0 countdown_conforms
  have htrace : ((construct countdown 0 >>= fun _ => get).run' Cache.empty).bind (fun c =>
      (translateLoop countdown 0 (2 ^ 64) c).map (·.trace)) = some [(0, 0), (0, 2), (0, 4)] := by decide +kernel
  have hget : (construct countdown 0 >>= fun _ => get) Cache.empty = .ok c c := StateExcept.bind_ok hc
  have hrun : (construct countdown 0 >>= fun _ => get).run' Cache.empty = some c := by
    delta EStateM.run' EStateM.run
    rw [hget]
  rw [hrun, Option.bind_some, ho, Option.map_some, Option.some.injEq] at htrace
  have hreachable : ∀ pc ∈ [0, 2, 4], countdown.DecodesInRanges pc := by
    intro pc hpc
    refine countdown_decodesInRanges ?_
    have hsuccessors : 2 ∈ successors countdown 0 ∧ 4 ∈ successors countdown 2 := by decide +kernel
    have htwo : Worklist.Reachable (successors countdown) 0 2 := .single hsuccessors.1
    simp only [List.mem_cons, List.not_mem_nil, or_false] at hpc
    rcases hpc with rfl | rfl | rfl
    · exact .refl
    · exact htwo
    · exact htwo.tail hsuccessors.2
  refine ⟨c, o, hc, ho, htrace, hend fun unit hunit => ?_⟩
  rw [htrace] at hunit
  exact hreachable _ (List.mem_map_of_mem (f := (·.2)) hunit)

end Avatar.Translator
