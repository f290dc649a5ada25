import Avatar.Lib.Transition
import Avatar.Theorems.Architecture
import Avatar.Theorems.Mediation

/-! Whole runs of the emitted function against the original program, which the architecture executes instruction by
    instruction from the same registers, flags and memory. The function follows the original program exactly as long as
    each instruction that the original program comes to is translated faithfully in the state that it is in. -/

namespace Avatar.Translator
open Avatar.Translator.Graph

/-! ### The original program -/

/-- The instruction at an address in the ranges -/
def Source.fetch (source : Source) (pc : BitVec 64) : Option (MCInst × Thumb.Instr) :=
  if source.pcRanges.isInRange pc then
    match decode source pc with
    | .ok (some inst) => inst.thumb.map fun instr => (inst, instr)
    | _ => none
  else none

/-- One instruction of the original program, which is over where it leaves the ranges -/
def Source.execute (source : Source) (s : Thumb.State) : Thumb.State :=
  match source.fetch (s.pc.setWidth 64) with
  | some (inst, instr) => instr.step s (inst.size.setWidth 32)
  | none => s

/-- The instruction at the address of a state is translated faithfully there. -/
def Source.FaithfulAt (source : Source) (stored : Thumb.State → List Thumb.Register → Prop) (s : Thumb.State) : Prop :=
  ∀ inst instr, source.fetch (s.pc.setWidth 64) = some (inst, instr) → Faithful stored source.memory inst instr s

/-- The state that a structure and a memory hold -/
def Source.start (source : Source) (function : Nat) (m : Machine) : Thumb.State :=
  architectural (structRegisters function m) m source.entryPc

/-- The disassembler lists the registers of a `PUSH` from the lowest to the highest. -/
def Disassembler.Ascending (disassembler : Disassembler) : Prop :=
  ∀ memory pc, (disassembler memory pc).status = .success → (disassembler memory pc).opcode = .tPUSH →
    ∃ pushed : List Register, (disassembler memory pc).operands = Operand.always ++ pushed.map .reg ∧
      pushed.Sublist coreRegisters

/-- The function is at the unit of the address of a state, with its registers and flags in the phi nodes, or it has
    returned where the state is out of the ranges, with them in the structure. Memory is that of the state. -/
inductive Shows (source : Source) (function : Nat) (units : List TranslationUnit) :
    Ssa.State Register (Nat × Argument) → Thumb.State → Prop where
  | running {unit : TranslationUnit} {registers : Registers} {m : Machine} (h : unit ∈ units)
      (hpc : unit.pc.toNat < 2 ^ 32) :
      Shows source function units (.running unit.head registers m) (architectural registers m unit.pc)
  | returned {pc : BitVec 64} {m : Machine} (h : source.pcRanges.isInRange pc = false) (hpc : pc.toNat < 2 ^ 32) :
      Shows source function units (.returned m) (architectural (structRegisters function m) m pc)

section Runs
variable {source : Source} {function : Nat} {g : Graph} {start : Machine} {pc : BitVec 64} {registers : Registers}
  {m : Machine} {s : Thumb.State}

theorem pushed_of_decode {inst : MCInst} (hascending : source.disassembler.Ascending)
    (h : decode source pc = .ok (some inst)) (hop : inst.opcode = .tPUSH) : ∃ pushed : List Register,
      inst.operands = Operand.always ++ pushed.map .reg ∧ pushed.Sublist coreRegisters := by
  rw [decode] at h
  split at h
  · split at h <;> cases h
    cases hop
  · cases h
  · rename_i hstatus
    cases h
    exact hascending _ _ hstatus hop

theorem pc_of_decode {inst : MCInst} (h : decode source pc = .ok (some inst)) : inst.pc = pc := by
  rw [decode] at h
  split at h
  · split at h <;> cases h
    rfl
  · cases h
  · cases h
    rfl

theorem setWidth_setWidth {pc : BitVec 64} (h : pc.toNat < 2 ^ 32) : (pc.setWidth 32).setWidth 64 = pc := by
  rw [← BitVec.toNat_inj, BitVec.toNat_setWidth, BitVec.toNat_setWidth, Nat.mod_eq_of_lt h,
    Nat.mod_eq_of_lt (Nat.lt_trans h (by decide))]

theorem fetch_architectural (hpc : pc.toNat < 2 ^ 32) :
    source.fetch ((architectural registers m pc).pc.setWidth 64) = source.fetch pc :=
  congrArg source.fetch (setWidth_setWidth hpc)

theorem fetch_translation (hrange : source.pcRanges.isInRange pc = true) (t : Translation source pc) {instr : Thumb.Instr}
    (hthumb : t.inst.thumb = some instr) : source.fetch pc = some (t.inst, instr) := by
  simp only [Source.fetch, hrange, if_true, t.decode_eq, hthumb, Option.map_some]

section Fetch
variable {inst : MCInst} {instr : Thumb.Instr} (h : source.fetch (s.pc.setWidth 64) = some (inst, instr))
include h

theorem execute_of_fetch : source.execute s = instr.step s (inst.size.setWidth 32) := by
  rw [Source.execute, h]

theorem faithfulAt_of_fetch (stored : Thumb.State → List Thumb.Register → Prop) :
    source.FaithfulAt stored s ↔ Faithful stored source.memory inst instr s := by
  refine ⟨fun hfaithful => hfaithful inst instr h, fun hfaithful inst' instr' h' => ?_⟩
  cases h.symm.trans h'
  exact hfaithful

end Fetch

theorem Shows.running_iff (hpc : pc ∈ g.pcs) : Shows source function g.units (.running (g.head pc) registers m) s ↔
    s = architectural registers m pc ∧ pc.toNat < 2 ^ 32 := by
  constructor
  · intro h
    generalize hf : Ssa.State.running (g.head pc) registers m = f at h
    cases h with
    | @running unit registers' m' hunit hlt =>
      obtain ⟨pc', hpc', rfl⟩ := List.mem_map.mp hunit
      obtain ⟨hhead, rfl, rfl⟩ := Ssa.State.running.inj hf
      obtain rfl := (List.idxOf_inj hpc).mp (Nat.succ.inj hhead)
      exact ⟨rfl, hlt⟩
    | returned => cases hf
  · rintro ⟨rfl, hlt⟩
    have hunit : (⟨pc, g.head pc⟩ : TranslationUnit) ∈ g.units := List.mem_map_of_mem hpc
    exact .running hunit hlt

/-- What the function returns with is what is current where it leaves the ranges. -/
theorem architectural_returned {m' : Machine} (h : Returned function start registers m m') :
    architectural (structRegisters function m') m' pc = architectural registers m pc := by
  have hmember : ∀ r : Thumb.Register, (Register.ofCore r, r.val) ∈ registerDescription.zipIdx ∧
      Register.ofCore r ≠ .cpsr := by decide
  have hword (r : Thumb.Register) :
      Registers.word (structRegisters function m') (.ofCore r) = registers.word (.ofCore r) := by
    have hlookup : structRegisters function m' (.ofCore r) = some (.i32 (m'.register function r.val)) := by
      obtain ⟨i, hi⟩ := r
      interval_cases i <;> rfl
    rw [Registers.word, hlookup, Registers.word, h.members _ (hmember r).1 (hmember r).2]
  have hflags : Registers.flags (structRegisters function m') = registers.flags := by
    simp only [Registers.flags, Registers.flag, h.flagZ, h.flagN, h.flagC, h.flagV]
    rfl
  simp only [architectural, hword, hflags, h.memory]

/-- A step in the ranges -/
theorem Shows.step_inRange (hbuilt : Graph.Built source function g.pcs.length g)
    (hconforms : source.disassembler.Conforms) (hascending : source.disassembler.Ascending)
    (hok : ∀ pc ∈ g.pcs, source.DecodesInRanges pc) (hpc : pc ∈ g.pcs) (hlt : pc.toNat < 2 ^ 32)
    (hrange : source.pcRanges.isInRange pc = true) {f : Ssa.State Register (Nat × Argument)}
    (hmatches : Matches function g start (.running pc registers m) f) :
    Shows source function g.units (Ssa.step g.blocks f) (source.execute (architectural registers m pc)) ↔
      source.FaithfulAt Reversible (architectural registers m pc) := by
  have hnext := hmatches.step hbuilt hconforms hok
  obtain ⟨t⟩ := (hok pc hpc hrange).translation hconforms
  have htyped : registers.Typed := by cases hmatches; assumption
  have hwellFormed := wellFormed_of_decode hconforms t.decode_eq
  have hinst := pc_of_decode t.decode_eq
  obtain ⟨instr, hthumb, registers', m', heffect, hkept⟩ :=
    translates hwellFormed (pushed_of_decode hascending t.decode_eq) t.translator_eq htyped m
  have hfetch : source.fetch ((architectural registers m pc).pc.setWidth 64) = some (t.inst, instr) :=
    (fetch_architectural hlt).trans (fetch_translation hrange t hthumb)
  have hstep : Processor.step source (.running pc registers m) =
      .running (t.inst.wideNext registers.flags instr) registers' m' := by
    simp only [Processor.step, hrange, if_true, t.decode_eq, t.translator_eq, Option.bind_some, heffect]
  rw [hstep] at hnext
  rw [execute_of_fetch hfetch, faithfulAt_of_fetch hfetch]
  generalize Ssa.step g.blocks f = f' at hnext
  cases hnext with
  | running hpc' =>
    rw [Shows.running_iff hpc', Faithful]
    have hpc := setWidth_wideNext (s := architectural registers m pc) hthumb (by rw [hinst]; rfl)
    rw [hinst] at hkept
    exact and_congr_left fun _ => (Thumb.Instr.step_eq_iff hpc).trans hkept

theorem fetch_of_not_inRange (h : source.pcRanges.isInRange pc = false) : source.fetch pc = none := by
  rw [Source.fetch, if_neg (by simp [h])]

/-- Out of the ranges the original program is over. -/
theorem over_of_not_inRange (registers : Registers) (m : Machine) (hlt : pc.toNat < 2 ^ 32)
    (h : source.pcRanges.isInRange pc = false) (stored : Thumb.State → List Thumb.Register → Prop) :
    source.execute (architectural registers m pc) = architectural registers m pc ∧
      source.FaithfulAt stored (architectural registers m pc) := by
  have hfetch : source.fetch ((architectural registers m pc).pc.setWidth 64) = none :=
    (fetch_architectural hlt).trans (fetch_of_not_inRange h)
  refine ⟨by rw [Source.execute, hfetch], fun inst instr hsome => ?_⟩
  rw [hfetch] at hsome
  cases hsome

/-- The function keeps up with one instruction of the original program if and only if that is translated faithfully. -/
theorem Shows.step_iff (hbuilt : Graph.Built source function g.pcs.length g)
    (hconforms : source.disassembler.Conforms) (hascending : source.disassembler.Ascending)
    (hok : ∀ pc ∈ g.pcs, source.DecodesInRanges pc) {p : Processor} {f : Ssa.State Register (Nat × Argument)}
    (hmatches : Matches function g start p f) (h : Shows source function g.units f s) :
    Shows source function g.units (Ssa.step g.blocks f) (source.execute s) ↔ source.FaithfulAt Reversible s := by
  cases hmatches with
  | @running pc registers m hpc htyped hcpsr hmembers =>
    obtain ⟨rfl, hlt⟩ := (Shows.running_iff hpc).mp h
    cases hrange : source.pcRanges.isInRange pc with
    | true =>
      exact Shows.step_inRange hbuilt hconforms hascending hok hpc hlt hrange (.running hpc htyped hcpsr hmembers)
    | false =>
      have hk : g.head pc ≤ g.pcs.length := List.idxOf_lt_length_iff.mpr hpc
      obtain ⟨m', hstep, hreturned⟩ := hbuilt.step_exit hpc hk hrange htyped hcpsr hmembers
      obtain ⟨hexecute, hfaithful⟩ := over_of_not_inRange registers m hlt hrange Reversible
      rw [hstep, hexecute, ← architectural_returned hreturned]
      rw [← architectural_returned hreturned] at hfaithful
      exact iff_of_true (.returned hrange hlt) hfaithful
  | stopped hreturned =>
    cases h with
    | returned hrange hlt =>
      obtain ⟨hexecute, hfaithful⟩ := over_of_not_inRange _ _ hlt hrange Reversible
      rw [hexecute]
      exact iff_of_true (.returned hrange hlt) hfaithful

/-- The function has just entered its first unit. -/
theorem shows_start (hbuilt : Graph.Built source function g.pcs.length g) (hlt : source.entryPc.toNat < 2 ^ 32) :
    Shows source function g.units (Ssa.step g.blocks (.running 0 (fun _ => none) start))
      (source.start function start) := by
  rw [hbuilt.step_entry]
  exact (Shows.running_iff (List.mem_of_getElem? hbuilt.explored.first)).mpr ⟨rfl, hlt⟩

theorem shows_iff (hbuilt : Graph.Built source function g.pcs.length g) (hconforms : source.disassembler.Conforms)
    (hascending : source.disassembler.Ascending) (hok : ∀ pc ∈ g.pcs, source.DecodesInRanges pc)
    (hlt : source.entryPc.toNat < 2 ^ 32) (n : Nat) :
    (∀ k ≤ n, Shows source function g.units ((Ssa.step g.blocks)^[k + 1] (.running 0 (fun _ => none) start))
      (source.execute^[k] (source.start function start))) ↔
    ∀ k < n, source.FaithfulAt Reversible (source.execute^[k] (source.start function start)) := by
  refine Transition.forall_le_iff (shows_start hbuilt hlt) (fun k hk => ?_) n
  rw [Function.iterate_succ_apply' _ (k + 1), Function.iterate_succ_apply' source.execute k]
  exact Shows.step_iff hbuilt hconforms hascending hok (matches_iterate hbuilt hconforms hok k) hk

end Runs

/-- The emitted function against the original program, from every structure and memory: up to the `n`th instruction each
    block leaves the registers, flags and memory that the instruction leaves if and only if none of the `n` instructions
    meets a case in which its translation differs. -/
theorem preserves_iff (call : Call) (hconforms : call.source.disassembler.Conforms)
    (hascending : call.source.disassembler.Ascending)
    (hentry : call.source.pcRanges.isInRange call.source.entryPc = true) (hlt : call.source.entryPc.toNat < 2 ^ 32)
    (hok : ∀ pc, Worklist.Reachable (successors call.source) call.source.entryPc pc → call.source.DecodesInRanges pc) :
    ∃ done, instrumentMemoryAccess call Cache.empty = some done ∧ done.failure = none ∧
      ∀ (start : Machine) (n : Nat),
        (∀ k ≤ n, Shows call.source call.function done.wrapper.units
          ((Ssa.step done.wrapper.blocks)^[k + 1] (.running 0 (fun _ => none) start))
          (call.source.execute^[k] (call.source.start call.function start))) ↔
        ∀ k < n, call.source.FaithfulAt Reversible (call.source.execute^[k] (call.source.start call.function start)) := by
  obtain ⟨o, ho, hended⟩ := instrumentMemoryAccess_empty hentry
  refine ⟨_, ho, ?_⟩
  rcases hended with ⟨hfailure, g, hbuilt, -, hcache, -⟩ | ⟨-, pc, hpc, hnone⟩
  · refine ⟨finishCall_failure.trans hfailure, fun start n => ?_⟩
    rw [wrapper_of_finished hcache]
    exact shows_iff hbuilt hconforms hascending (fun pc hpc => hok pc ((mem_pcs_iff hbuilt).mp hpc)) hlt n
  · obtain ⟨p, hp, -⟩ := piece_closed (hok pc hpc) hconforms call.function
    cases hnone.symm.trans hp

theorem countdown_ascending : countdown.disassembler.Ascending := by
  intro memory pc hstatus hop
  simp only [countdown] at hop
  split at hop
  · cases hop
  · split at hop <;> cases hop

theorem preserves_iff_countdown : ∃ done,
    instrumentMemoryAccess ⟨countdown, 0, fun _ => .compiled⟩ Cache.empty = some done ∧ done.failure = none ∧
      ∀ (start : Machine) (n : Nat),
        (∀ k ≤ n, Shows countdown 0 done.wrapper.units
          ((Ssa.step done.wrapper.blocks)^[k + 1] (.running 0 (fun _ => none) start))
          (countdown.execute^[k] (countdown.start 0 start))) ↔
        ∀ k < n, countdown.FaithfulAt Reversible (countdown.execute^[k] (countdown.start 0 start)) :=
  preserves_iff ⟨countdown, 0, fun _ => .compiled⟩ countdown_conforms countdown_ascending (by decide) (by decide)
    fun _ => countdown_decodesInRanges

end Avatar.Translator
