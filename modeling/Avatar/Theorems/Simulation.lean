import Avatar.Translator.Semantics

/-! The function that a translation emits does what the translated instructions do, one block for each of them.

    While a program counter in the ranges is current, the phi nodes of its head block hold the registers and
    flags: each edge into the block passes on the values of its source, and control came along one of them. The
    entry block loads the registers, and the block of the first program counter out of the ranges stores them. -/

namespace Avatar.Translator

variable {source : Source} {function : Nat}

/-- The structure when the function returns. Memory and the other structure are as they were. -/
structure Returned (function : Nat) (start : Machine) (registers : Registers) (m m' : Machine) : Prop where
  memory : m'.memory = m.memory
  others : ∀ k i, k ≠ (function, .processorRegisters) → m'.members k i = start.members k i
  /-- `R0` to `R12`, `SP` and `LR` are the current ones. -/
  members : ∀ r ∈ registerDescription.zipIdx, r.1 ≠ .cpsr → registers r.1 = some (.i32 (m'.register function r.2))
  flagN : registers .flagN = some (.i1 ((m'.register function 15).getLsbD 31))
  flagZ : registers .flagZ = some (.i1 ((m'.register function 15).getLsbD 30))
  flagC : registers .flagC = some (.i1 ((m'.register function 15).getLsbD 29))
  flagV : registers .flagV = some (.i1 ((m'.register function 15).getLsbD 28))
  /-- The other bits of `CPSR` are the initial ones. -/
  cpsr : ∀ i < 28, (m'.register function 15).getLsbD i = (start.register function 15).getLsbD i

/-- The state of the function that corresponds to a state of the processor: the head block of the current program
    counter with the registers in its phi nodes, or the end with the registers in the structure. -/
inductive Corresponds (function : Nat) (units : List TranslationUnit) (start : Machine) :
    Processor → Ssa.State Register (Nat × Argument) → Prop where
  | running {unit : TranslationUnit} {registers : Registers} {m : Machine} (h : unit ∈ units) :
      Corresponds function units start (.running unit.pc registers m) (.running unit.head registers m)
  | stopped {pc : BitVec 64} {registers : Registers} {m m' : Machine}
      (h : Returned function start registers m m') :
      Corresponds function units start (.stopped pc registers m) (.returned m')

/-! ### Phi nodes -/

theorem find?_entry {values : Values} {id : Register} {val : Value} (h : values.lookup id = some val) (b : Nat) :
    ((values.filter (·.1 = id)).map fun v => (v.2, b)).find? (·.2 = b) = some (val, b) := by
  induction values with
  | nil => cases h
  | cons v values ih =>
    rw [List.lookup_cons] at h
    by_cases heq : v.1 = id
    · rw [beq_iff_eq.mpr heq.symm] at h
      cases h
      simp [heq]
    · rw [beq_false_of_ne (Ne.symm heq)] at h
      rw [List.filter_cons, if_neg (by simpa using heq)]
      exact ih h

/-! ### The flags in `CPSR` -/

/-- A flag as a bit of `CPSR`. -/
def flagBit (flag : Bool) (i : Nat) : BitVec 32 := (if flag then 1#32 else 0#32) <<< i

/-- `CPSR` with the flags in its upper bits. -/
def packFlags (cpsr : BitVec 32) (z n c v : Bool) : BitVec 32 :=
  cpsr &&& 0x0FFFFFFF#32 ||| (flagBit z 30 ||| flagBit n 31 ||| (flagBit c 29 ||| flagBit v 28))

theorem getLsbD_flagBit (flag : Bool) {i j : Nat} (h : j < 32) :
    (flagBit flag i).getLsbD j = (flag && decide (j = i)) := by
  rw [flagBit, BitVec.getLsbD_shiftLeft]
  cases flag with
  | false => simp
  | true =>
    rw [if_pos rfl, BitVec.getLsbD_one, Bool.true_and, Bool.eq_iff_iff]
    simp only [Bool.and_eq_true, decide_eq_true_eq, Bool.not_eq_true', decide_eq_false_iff_not]
    omega

theorem getLsbD_packFlags (cpsr : BitVec 32) (z n c v : Bool) {j : Nat} (h : j < 32) :
    (packFlags cpsr z n c v).getLsbD j =
      (cpsr.getLsbD j && decide (j < 28) || (z && decide (j = 30) || n && decide (j = 31) ||
        (c && decide (j = 29) || v && decide (j = 28)))) := by
  have hmask : ∀ j < 32, (0x0FFFFFFF#32).getLsbD j = decide (j < 28) := by decide
  simp only [packFlags, BitVec.getLsbD_or, BitVec.getLsbD_and, getLsbD_flagBit _ h]
  rw [hmask j h]

theorem eval_encodedCpsr {registers : Registers} {cpsr : BitVec 32} {z n c v : Bool}
    (hcpsr : registers .cpsr = some (.i32 cpsr)) (hz : registers .flagZ = some (.i1 z))
    (hn : registers .flagN = some (.i1 n)) (hc : registers .flagC = some (.i1 c))
    (hv : registers .flagV = some (.i1 v)) (results : List (Option (Ssa.Val (Nat × Argument)))) :
    encodedCpsr.eval ⟨registers, results⟩ = some (.i32 (packFlags cpsr z n c v)) := by
  simp only [encodedCpsr, Ssa.Value.eval, hcpsr, hz, hn, hc, hv]
  rfl
/-! ### The exit code -/

def storedWord (registers : Registers) (cpsr : BitVec 32) (index : Nat) : BitVec 32 :=
  if index = 15 then cpsr else registers.word (registerDescription.getD index .r0)

theorem storedWord_of_mem {registers : Registers} (htyped : registers.Typed) (cpsr : BitVec 32) {r : Register × Nat}
    (hr : r ∈ registerDescription.zipIdx) : r.2 ∈ List.range 16 ∧ (r.1 = .cpsr → storedWord registers cpsr r.2 = cpsr) ∧
      (r.1 ≠ .cpsr → registers r.1 = some (.i32 (storedWord registers cpsr r.2))) := by
  have hindex : ∀ r ∈ registerDescription.zipIdx, registerDescription.getD r.2 .r0 = r.1 ∧ r.2 ∈ List.range 16 ∧
      (r.2 = 15 ↔ r.1 = .cpsr) ∧ registerType r.1 = some .i32 := by decide
  obtain ⟨hget, hlt, hiff, hty⟩ := hindex r hr
  refine ⟨hlt, fun h => if_pos (hiff.mpr h), fun h => ?_⟩
  rw [storedWord, if_neg (mt hiff.mp h), hget]
  exact htyped.word hty

/-- The exit code stores the registers, with the flags in `CPSR`. -/
theorem execAll_exitCode_stores (function : Nat) (m : Machine) {registers : Registers} (htyped : registers.Typed)
    {word : BitVec 32} {z n c v : Bool} (hcpsr : registers .cpsr = some (.i32 word))
    (hz : registers .flagZ = some (.i1 z)) (hn : registers .flagN = some (.i1 n))
    (hc : registers .flagC = some (.i1 c)) (hv : registers .flagV = some (.i1 v)) :
    ∃ env m', Ssa.execAll (⟨registers, []⟩, m) (exitCode function) = some (env, m') ∧ m'.memory = m.memory ∧
      ∀ k i, m'.members k i = if k = (function, .processorRegisters) ∧ i ∈ List.range 16 then
        storedWord registers (packFlags word z n c v) i else m.members k i := by
  let cpsr := packFlags word z n c v
  let stores : List (Value × Nat) := registerDescription.zipIdx.map fun r =>
    (if r.1 = .cpsr then encodedCpsr else .phi r.1, r.2)
  have hvalues : ∀ p ∈ stores, ∀ results,
      p.1.eval ⟨registers, results⟩ = some (.i32 (storedWord registers cpsr p.2)) := by
    intro p hp results
    obtain ⟨r, hr, rfl⟩ := List.mem_map.mp hp
    obtain ⟨-, hstored, hstored'⟩ := storedWord_of_mem htyped cpsr hr
    by_cases h : r.1 = .cpsr
    · rw [if_pos h, hstored h]
      exact eval_encodedCpsr hcpsr hz hn hc hv results
    · rw [if_neg h]
      exact hstored' h
  obtain ⟨env, m', hrun, hmemory, hstored⟩ := Ssa.execAll_storeMembers ⟨registers, []⟩ m
    (function, .processorRegisters) (storedWord registers cpsr) stores hvalues
  have hexit : exitCode function = stores.map fun p => .store p.1 (.member (function, .processorRegisters) p.2) none := by
    rw [List.map_map]
    rfl
  exact ⟨env, m', hexit ▸ hrun, hmemory, hstored⟩

theorem Registers.Typed.flag {registers : Registers} (h : registers.Typed) (id : Register)
    (hid : registerType id = some .i1) : ∃ flag, registers id = some (.i1 flag) := by
  obtain ⟨_, hx, hty⟩ := h id .i1 hid
  obtain ⟨flag, rfl⟩ := hty.i1_inv
  exact ⟨flag, hx⟩

theorem execAll_exitCode {start m : Machine} {registers : Registers} (htyped : registers.Typed)
    (hcpsr : registers .cpsr = some (.i32 (start.register function 15))) (hmembers : m.members = start.members) :
    ∃ env m', Ssa.execAll (⟨registers, []⟩, m) (exitCode function) = some (env, m') ∧
      Returned function start registers m m' := by
  obtain ⟨z, hz⟩ := htyped.flag .flagZ rfl
  obtain ⟨n, hn⟩ := htyped.flag .flagN rfl
  obtain ⟨c, hc⟩ := htyped.flag .flagC rfl
  obtain ⟨v, hv⟩ := htyped.flag .flagV rfl
  let cpsr := packFlags (start.register function 15) z n c v
  obtain ⟨env, (m' : Machine), hrun, hmemory, hstored⟩ := execAll_exitCode_stores function m htyped hcpsr hz hn hc hv
  have hregister (i : Nat) (hi : i ∈ List.range 16) : m'.register function i = storedWord registers cpsr i :=
    (hstored _ i).trans (if_pos ⟨rfl, hi⟩)
  have hflag (j : Nat) (hj : j < 32) : (m'.register function 15).getLsbD j =
      ((start.register function 15).getLsbD j && decide (j < 28) || (z && decide (j = 30) || n && decide (j = 31) ||
        (c && decide (j = 29) || v && decide (j = 28)))) := by
    rw [hregister 15 (by decide), storedWord, if_pos rfl, getLsbD_packFlags _ _ _ _ _ hj]
  refine ⟨env, m', hrun, hmemory, fun k i hk => ?_, fun r hr hne => ?_, ?_, ?_, ?_, ?_, fun i hi => ?_⟩
  · rw [hstored, if_neg fun h => hk h.1, hmembers]
  · obtain ⟨hlt, -, hstored'⟩ := storedWord_of_mem htyped cpsr hr
    rw [hregister r.2 hlt]
    exact hstored' hne
  · rw [hn, hflag 31 (by decide)]
    simp
  · rw [hz, hflag 30 (by decide)]
    simp
  · rw [hc, hflag 29 (by decide)]
    simp
  · rw [hv, hflag 28 (by decide)]
    simp
  · rw [hflag i (Nat.lt_trans hi (by decide))]
    have hne (j : Nat) (hj : 28 ≤ j) : i ≠ j := Nat.ne_of_lt (Nat.lt_of_lt_of_le hi hj)
    simp [hi, hne]

namespace Graph
variable {g : Graph} {k : Nat} {pc : BitVec 64} {id : Register} {values : Values} {b : Nat}

theorem find?_incoming {val : Value} (hvalues : ∀ e ∈ g.edges, e.source = b → e.values = values)
    (hlookup : values.lookup id = some val) (hedge : ∃ e ∈ g.edges, e.source = b ∧ e.target = pc) :
    (g.incoming pc id).find? (·.2 = b) = some (val, b) := by
  rw [incoming]
  generalize g.edges = edges at hvalues hedge
  induction edges with
  | nil =>
    obtain ⟨e, he, -⟩ := hedge
    cases he
  | cons e edges ih =>
    have hrest (h : ¬(e.source = b ∧ e.target = pc)) := ih (fun e he => hvalues e (List.mem_cons_of_mem _ he)) <| by
      obtain ⟨e', he', hsource, htarget⟩ := hedge
      rcases List.mem_cons.mp he' with rfl | he'
      · exact absurd ⟨hsource, htarget⟩ h
      · exact ⟨e', he', hsource, htarget⟩
    rw [List.filter_cons]
    split
    · rename_i htarget
      rw [List.flatMap_cons, List.find?_append]
      by_cases hsource : e.source = b
      · rw [hvalues e (List.mem_cons_self ..) hsource, hsource, find?_entry hlookup]
        rfl
      · have hnone : ((e.values.filter (·.1 = id)).map fun v => (v.2, e.source)).find? (·.2 = b) = none := by
          rw [List.find?_eq_none]
          intro v hv heq
          obtain ⟨_, -, rfl⟩ := List.mem_map.mp hv
          exact hsource (of_decide_eq_true heq)
        rw [hnone, Option.none_or]
        exact hrest fun h => hsource h.1
    · rename_i htarget
      exact hrest fun h => htarget (decide_eq_true h.2)

/-- Control that comes along an edge finds the values of its source in the phi nodes. -/
theorem enter_block (hvalues : ∀ e ∈ g.edges, e.source = b → e.values = values)
    (hkeys : values.map (·.1) = valueInformation.map (·.1)) (hedge : ∃ e ∈ g.edges, e.source = b ∧ e.target = pc)
    (env : Ssa.Env Register (Nat × Argument)) :
    (g.block pc).enter b env = fun id => (values.lookup id).bind (·.eval env) := by
  funext id
  have hphis : (g.block pc).phis.lookup id = (valueInformation.lookup id).map fun _ => g.incoming pc id :=
    Ssa.lookup_map (fun id _ => g.incoming pc id) valueInformation id
  have hlookup : (values.lookup id).isSome = true ↔ (valueInformation.lookup id).isSome = true := by
    rw [lookup_isSome_iff, lookup_isSome_iff, hkeys]
  cases hty : valueInformation.lookup id with
  | none =>
    have hnone : values.lookup id = none := Option.not_isSome_iff_eq_none.mp fun h =>
      Bool.false_ne_true (by rw [← hlookup.mp h, hty]; rfl)
    simp only [Ssa.Block.enter, hphis, hty, hnone, Option.map_none, Option.bind_none]
  | some ty =>
    obtain ⟨val, hval⟩ := Option.isSome_iff_exists.mp (hlookup.mpr (Option.isSome_of_eq_some hty))
    simp only [Ssa.Block.enter, hphis, hty, Option.map_some, Option.bind_some, hval,
      find?_incoming hvalues hval hedge]

/-! ### The entry -/

theorem Built.step_entry (h : Built source function k g) (m : Machine) :
    Ssa.step g.blocks (.running 0 (fun _ => none) m) =
      .running (g.head source.entryPc) (structRegisters function m) m := by
  let members : List ((Nat × Argument) × Nat) :=
    [((function, .instrumentationFunctions), 0), ((function, .instrumentationFunctions), 1)] ++
      registerDescription.zipIdx.map fun r => ((function, .processorRegisters), r.2)
  have hhead : g.head source.entryPc = 1 := head_of_getElem? h.explored.first
  have hmem := List.mem_of_getElem? h.explored.first
  have hedge : (⟨0, entryValues, source.entryPc⟩ : Edge) ∈ g.edges.filter (·.source = 0) :=
    h.entryEdge ▸ List.mem_singleton_self _
  have hvalues : ∀ e ∈ g.edges, e.source = 0 → e.values = entryValues := by
    intro e he hsource
    have : e ∈ g.edges.filter (·.source = 0) := List.mem_filter.mpr ⟨he, decide_eq_true hsource⟩
    rw [h.entryEdge, List.mem_singleton] at this
    rw [this]
  let env : Ssa.Env Register (Nat × Argument) :=
    ⟨fun _ => none, members.map fun p => some (.i32 (m.members p.1 p.2))⟩
  have hrun : Ssa.execAll (⟨fun _ => none, []⟩, m) (loadCode function) = some (env, m) :=
    Ssa.execAll_loadMembers _ m members
  have hcpsr : (Ssa.Value.result 17 : Value).eval env = some (.i32 (m.register function 15)) := rfl
  have hblock : g.blocks[0]? = some ⟨[], g.entryCode⟩ := rfl
  rw [Ssa.step_goto hblock h.entryCode hrun rfl (hhead ▸ getElem?_head hmem), hhead,
    enter_block hvalues keys_entryValues ⟨_, List.mem_of_mem_filter hedge, rfl, rfl⟩]
  refine congrArg (Ssa.State.running _ · m) (funext fun id => ?_)
  cases id with
  | flagZ => exact eval_bit hcpsr 30 (by decide)
  | flagN => exact eval_bit hcpsr 31 (by decide)
  | flagC => exact eval_bit hcpsr 29 (by decide)
  | flagV => exact eval_bit hcpsr 28 (by decide)
  | _ => rfl

/-! ### The exits -/

theorem Built.code_exit (h : Built source function k g) (hpc : pc ∈ g.pcs) (hk : g.head pc ≤ k)
    (hrange : source.pcRanges.isInRange pc = false) : (g.block pc).code = exitCode function ++ [.retVoid] := by
  obtain ⟨p, hp, hcode, -⟩ := h.linked pc hpc hk
  obtain rfl := Option.some.inj ((piece_exit hrange).symm.trans hp)
  exact hcode

theorem Built.step_exit (h : Built source function k g) (hpc : pc ∈ g.pcs) (hk : g.head pc ≤ k)
    (hrange : source.pcRanges.isInRange pc = false) {start m : Machine} {registers : Registers}
    (htyped : registers.Typed) (hcpsr : registers .cpsr = some (.i32 (start.register function 15)))
    (hmembers : m.members = start.members) :
    ∃ m', Ssa.step g.blocks (.running (g.head pc) registers m) = .returned m' ∧
      Returned function start registers m m' := by
  obtain ⟨env, m', hrun, hreturned⟩ := execAll_exitCode htyped hcpsr hmembers
  exact ⟨m', Ssa.step_returned (getElem?_head hpc) (h.code_exit hpc hk hrange) hrun, hreturned⟩

/-! ### One instruction -/

/-- Control that comes from the block of an instruction finds the registers that the instruction leaves. -/
theorem Built.enter_target (h : Built source function k g) (hpc : pc ∈ g.pcs) (hk : g.head pc ≤ k)
    (hrange : source.pcRanges.isInRange pc = true) (t : Translation source pc) {pc' : BitVec 64}
    (htarget : pc' ∈ t.next.targets) (env : Ssa.Env Register (Nat × Argument)) :
    (g.block pc').enter (g.head pc) env = t.registers env := by
  obtain ⟨p, hp, -, hedges⟩ := h.linked pc hpc hk
  obtain rfl := Option.some.inj ((t.piece_eq hrange function).symm.trans hp)
  have hedge : (⟨g.head pc, t.emission.values, pc'⟩ : Edge) ∈ g.edges.filter (·.source = g.head pc) :=
    hedges ▸ List.mem_map_of_mem htarget
  have hvalues : ∀ e ∈ g.edges, e.source = g.head pc → e.values = t.emission.values := by
    intro e he hsource
    have : e ∈ g.edges.filter (·.source = g.head pc) := List.mem_filter.mpr ⟨he, decide_eq_true hsource⟩
    rw [hedges] at this
    obtain ⟨_, -, rfl⟩ := List.mem_map.mp this
    rfl
  exact enter_block hvalues t.typed.keys ⟨_, List.mem_of_mem_filter hedge, rfl, rfl⟩ env

/-- The block of a program counter in the ranges does what the instruction does. -/
theorem Built.step_inRange (h : Built source function k g) (hpc : pc ∈ g.pcs) (hk : g.head pc ≤ k)
    (hrange : source.pcRanges.isInRange pc = true) (t : Translation source pc) {registers : Registers}
    (htyped : registers.Typed) (m : Machine) :
    ∃ pc' ∈ g.pcs, ∃ registers' m', Processor.step source (.running pc registers m) = .running pc' registers' m' ∧
      Ssa.step g.blocks (.running (g.head pc) registers m) = .running (g.head pc') registers' m' ∧
      Registers.Typed registers' ∧ registers' .cpsr = registers .cpsr ∧ m'.members = m.members := by
  obtain ⟨p, hp, hcode, -⟩ := h.linked pc hpc hk
  obtain rfl := Option.some.inj ((t.piece_eq hrange function).symm.trans hp)
  obtain ⟨env, m', pc', hexecuted⟩ := t.executed hrange htyped m g.head
  have hpc' := h.target_mem hpc hk hp hexecuted.target
  obtain ⟨terminator, hterminator, hexit⟩ := hexecuted.terminator
  have hbody : (g.block pc).code = t.emission.code ++ [terminator] := hcode.trans (congrArg _ hterminator)
  refine ⟨pc', hpc', t.registers env, m', hexecuted.step, ?_, hexecuted.typed, hexecuted.cpsr, hexecuted.members⟩
  rw [Ssa.step_goto (getElem?_head hpc) hbody hexecuted.code hexit (getElem?_head hpc'),
    h.enter_target hpc hk hrange t hexecuted.target]

end Graph

open Avatar.Translator.Graph

/-! ### Runs -/

/-- The states of a run: at a program counter that has a unit, with typed registers and the initial `CPSR`, or at
    the end. -/
inductive Matches (function : Nat) (g : Graph) (start : Machine) :
    Processor → Ssa.State Register (Nat × Argument) → Prop where
  | running {pc : BitVec 64} {registers : Registers} {m : Machine} (hpc : pc ∈ g.pcs) (htyped : registers.Typed)
      (hcpsr : registers .cpsr = some (.i32 (start.register function 15))) (hmembers : m.members = start.members) :
      Matches function g start (.running pc registers m) (.running (g.head pc) registers m)
  | stopped {pc : BitVec 64} {registers : Registers} {m m' : Machine} (h : Returned function start registers m m') :
      Matches function g start (.stopped pc registers m) (.returned m')

section Runs
variable {g : Graph} {start : Machine}

theorem Matches.corresponds {s : Processor} {t : Ssa.State Register (Nat × Argument)}
    (h : Matches function g start s t) : Corresponds function g.units start s t := by
  cases h with
  | running hpc => exact .running (List.mem_map_of_mem hpc)
  | stopped h => exact .stopped h

theorem Matches.step (hbuilt : Built source function g.pcs.length g) (hconforms : source.disassembler.Conforms)
    (hok : ∀ pc ∈ g.pcs, source.DecodesInRanges pc) {s : Processor} {t : Ssa.State Register (Nat × Argument)}
    (h : Matches function g start s t) :
    Matches function g start (Processor.step source s) (Ssa.step g.blocks t) := by
  cases h with
  | @running pc registers m hpc htyped hcpsr hmembers =>
    have hk : g.head pc ≤ g.pcs.length := List.idxOf_lt_length_iff.mpr hpc
    cases hrange : source.pcRanges.isInRange pc with
    | true =>
      obtain ⟨translation⟩ := (hok pc hpc hrange).translation hconforms
      obtain ⟨pc', hpc', registers', m', hstep, hstep', htyped', hcpsr', hmembers'⟩ :=
        hbuilt.step_inRange hpc hk hrange translation htyped m
      rw [hstep, hstep']
      exact .running hpc' htyped' (hcpsr'.trans hcpsr) (hmembers'.trans hmembers)
    | false =>
      obtain ⟨m', hstep, hreturned⟩ := hbuilt.step_exit hpc hk hrange htyped hcpsr hmembers
      rw [hstep, Processor.step, if_neg (by rw [hrange]; exact Bool.false_ne_true)]
      exact .stopped hreturned
  | stopped h => exact .stopped h

/-- After the entry block, each block is one instruction. -/
theorem matches_iterate (hbuilt : Built source function g.pcs.length g) (hconforms : source.disassembler.Conforms)
    (hok : ∀ pc ∈ g.pcs, source.DecodesInRanges pc) (n : Nat) :
    Matches function g start ((Processor.step source)^[n] (Processor.initial source function start))
      ((Ssa.step g.blocks)^[n + 1] (.running 0 (fun _ => none) start)) := by
  induction n with
  | zero =>
    rw [Function.iterate_one, hbuilt.step_entry]
    exact .running (List.mem_of_getElem? hbuilt.explored.first) (structRegisters_typed function start) rfl rfl
  | succ n ih =>
    rw [Function.iterate_succ_apply', Function.iterate_succ_apply' _ (n + 1)]
    exact ih.step hbuilt hconforms hok

end Runs

/-- The translation of a program whose instructions in the ranges, as far as they can be reached, decode with
    success and have translators: the function that is emitted does the steps of the processor one by one, from
    every structure and memory. It returns where the processor first leaves the ranges, with the registers in
    the structure. -/
theorem simulation (call : Call) (hconforms : call.source.disassembler.Conforms)
    (hentry : call.source.pcRanges.isInRange call.source.entryPc = true)
    (hok : ∀ pc, Worklist.Reachable (successors call.source) call.source.entryPc pc →
      call.source.DecodesInRanges pc) :
    ∃ done, instrumentMemoryAccess call Cache.empty = some done ∧ done.failure = none ∧
      ∀ (start : Machine) (n : Nat), Corresponds call.function done.wrapper.units start
        ((Processor.step call.source)^[n] (Processor.initial call.source call.function start))
        ((Ssa.step done.wrapper.blocks)^[n + 1] (.running 0 (fun _ => none) start)) := by
  obtain ⟨o, ho, hended⟩ := instrumentMemoryAccess_empty hentry
  refine ⟨_, ho, ?_⟩
  rcases hended with ⟨hfailure, g, hbuilt, -, hcache, -⟩ | ⟨-, pc, hpc, hnone⟩
  · refine ⟨finishCall_failure.trans hfailure, fun start n => ?_⟩
    rw [wrapper_of_finished hcache]
    exact (matches_iterate hbuilt hconforms (fun pc hpc => hok pc ((mem_pcs_iff hbuilt).mp hpc)) n).corresponds
  · obtain ⟨p, hp, -⟩ := piece_closed (hok pc hpc) hconforms call.function
    cases hnone.symm.trans hp

/-- The loop of `countdown`, whatever is in the structure and in memory. -/
theorem simulation_countdown :
    ∃ done, instrumentMemoryAccess ⟨countdown, 0, fun _ => .compiled⟩ Cache.empty = some done ∧
    done.failure = none ∧ ∀ (start : Machine) (n : Nat), Corresponds 0 done.wrapper.units start
      ((Processor.step countdown)^[n] (Processor.initial countdown 0 start))
      ((Ssa.step done.wrapper.blocks)^[n + 1] (.running 0 (fun _ => none) start)) :=
  simulation ⟨countdown, 0, fun _ => .compiled⟩ countdown_conforms (by decide)
    fun _ => countdown_decodesInRanges

end Avatar.Translator
