import Avatar.Translator.Build

/-! When `instrument_memory_access` reports a translation that is not complete. It returns 0 or does not
    return, so it meets its interface on the inputs whose translation is complete, and on no others. -/

namespace Avatar.Translator
open Avatar.Translator.Graph

def EndsInTerminator (block : BasicBlock) : Prop :=
  ∃ terminator, block.code.getLast? = some terminator ∧ terminator.isTerminator = true

/-- The literal that the instruction loads, if it loads one, was read. -/
def LiteralRead (source : Source) (pc : BitVec 64) : Prop :=
  ∀ inst offset, decode source pc = .ok (some inst) → inst.opcode = .tLDRpciASM →
    inst.operands[1]? = some (.imm offset) → (readBytes source.memory (literalAddress inst offset) 4).1 = true

def Registered (source : Source) (pc : BitVec 64) : Prop :=
  ∃ inst, decode source pc = .ok (some inst) ∧ (instructionTranslator source.memory inst.opcode).isSome = true

/-- Every unit was translated by its registered translator or given an exit, every block ends in a terminator
    and every literal was read. -/
structure Done.Complete (source : Source) (done : Done) : Prop where
  failure : done.failure = none
  blocks : ∀ block ∈ done.wrapper.blocks, EndsInTerminator block
  units : ∀ unit ∈ done.wrapper.units, source.pcRanges.isInRange unit.pc = true →
    Registered source unit.pc ∧ LiteralRead source unit.pc

/-- The call returns 0 only if its translation is complete, and another code if it is not. -/
def FailureReported (call : Call) : Prop :=
  ∃ done, instrumentMemoryAccess call Cache.empty = some done ∧
    (done.result = .returned 0 → done.Complete call.source) ∧
    (¬done.Complete call.source → ∃ code, code ≠ 0 ∧ done.result = .returned code)

/-- The instruction has a translator whose assertions hold and that comes to its end. -/
def Translatable (source : Source) (pc : BitVec 64) : Prop :=
  ∃ inst translator successor e, decode source pc = .ok (some inst) ∧
    instructionTranslator source.memory inst.opcode = some translator ∧
    translator inst ⟨[], initialValues⟩ = some (successor, e) ∧
    (∀ v ∈ e.values, v.1 ∈ valueInformation.map (·.1)) ∧ (successor.next e.values inst).isSome = true

variable {source : Source} {function : Nat} {g : Graph} {pc : BitVec 64} {call : Call} {o : Outcome} {done : Done}

/-! ### Results -/

/-- An entry outside of the ranges ends the process. -/
theorem instrumentMemoryAccess_of_not_inRange (hentry : ¬call.source.pcRanges.isInRange call.source.entryPc = true) :
    ∃ c, instrumentMemoryAccess call Cache.empty = some (.aborted call.function c) := by
  refine ⟨(initial call.source call.function).toCache call.function 0, ?_⟩
  simp only [instrumentMemoryAccess, construct_empty, if_neg hentry]

theorem code_eq_zero {code : Int} (h : instrumentMemoryAccess call Cache.empty = some done)
    (hcode : done.result = .returned code) : code = 0 := by
  by_cases hentry : call.source.pcRanges.isInRange call.source.entryPc = true
  · obtain ⟨o, ho, -⟩ := instrumentMemoryAccess_empty hentry
    cases ho.symm.trans h
    exact finishCall_result hcode
  · obtain ⟨c, hc⟩ := instrumentMemoryAccess_of_not_inRange hentry
    cases hc.symm.trans h
    cases hcode

/-! ### Pieces -/

theorem translatable_iff (function : Nat) (hrange : source.pcRanges.isInRange pc = true) :
    Translatable source pc ↔ ∃ p, piece source function pc = some p ∧ p.next ≠ .skip := by
  constructor
  · rintro ⟨inst, translator, successor, e, hdecode, htranslator, he, hvalues, hnext⟩
    obtain ⟨next, hnext⟩ := Option.isSome_iff_exists.mp hnext
    exact ⟨_, piece_of_translator hrange hdecode htranslator he hvalues hnext, Successor.next_ne_skip hnext⟩
  · rintro ⟨p, hp, hskip⟩
    rcases piece_of_inRange hrange hp with ⟨-, rfl⟩ | ⟨inst, translator, successor, hdecode, htranslator, he, hvalues, hnext⟩
    · exact absurd rfl hskip
    · exact ⟨inst, translator, successor, _, hdecode, htranslator, he, hvalues, by rw [hnext]; rfl⟩

theorem Translatable.registered (h : Translatable source pc) : Registered source pc := by
  obtain ⟨inst, translator, _, _, hdecode, htranslator, -⟩ := h
  exact ⟨inst, hdecode, by rw [htranslator]; rfl⟩

theorem piece_isSome (function : Nat) (hrange : source.pcRanges.isInRange pc = true → Translatable source pc) :
    ∃ p, piece source function pc = some p ∧ p.next ≠ .skip := by
  cases h : source.pcRanges.isInRange pc with
  | true => exact (translatable_iff function h).mp (hrange h)
  | false => exact ⟨_, piece_exit h, nofun⟩

theorem endsInTerminator_append {phis : List (Register × List (Value × Nat))} {code : List Instr} {next : Next}
    {head : BitVec 64 → Nat} (h : next ≠ .skip) : EndsInTerminator ⟨phis, code ++ next.terminator head⟩ := by
  cases next with
  | exit => exact ⟨_, List.getLast?_concat, rfl⟩
  | skip => exact absurd rfl h
  | goto pc => exact ⟨_, List.getLast?_concat, rfl⟩
  | branch cond ifTrue ifFalse => exact ⟨_, List.getLast?_concat, rfl⟩

/-! ### The finished graph -/

theorem linked_of_finished (h : Built source function g.pcs.length g) (hpc : pc ∈ g.pcs) :
    ∃ p, piece source function pc = some p ∧ (g.block pc).code = p.code ++ p.next.terminator g.head := by
  obtain ⟨p, hp, hcode, -⟩ := h.linked pc hpc (List.idxOf_lt_length_of_mem hpc)
  exact ⟨p, hp, hcode⟩

theorem complete_of_translatable (h : Built call.source call.function g.pcs.length g) (hfailure : o.failure = none)
    (hcache : o.cache = g.toCache call.function g.pcs.length)
    (hall : ∀ pc ∈ g.pcs, call.source.pcRanges.isInRange pc = true →
      Translatable call.source pc ∧ LiteralRead call.source pc) :
    (finishCall call o).Complete call.source := by
  refine ⟨finishCall_failure.trans hfailure, fun block hblock => ?_, fun unit hunit hrange => ?_⟩
  · rw [wrapper_of_finished hcache] at hblock
    rcases List.mem_cons.mp hblock with rfl | hblock
    · exact ⟨.br 1, by rw [h.entryCode]; exact List.getLast?_concat, rfl⟩
    · obtain ⟨pc, hpc, rfl⟩ := List.mem_map.mp hblock
      obtain ⟨p, hp, hcode⟩ := linked_of_finished h hpc
      obtain ⟨p', hp', hskip⟩ := piece_isSome call.function fun hrange => (hall pc hpc hrange).1
      cases hp.symm.trans hp'
      rw [block, show g.code pc = _ from hcode]
      exact endsInTerminator_append hskip
  · rw [wrapper_of_finished hcache] at hunit
    obtain ⟨pc, hpc, rfl⟩ := List.mem_map.mp hunit
    obtain ⟨htranslatable, hliteral⟩ := hall pc hpc hrange
    exact ⟨htranslatable.registered, hliteral⟩

theorem translatable_of_complete (h : Built call.source call.function g.pcs.length g)
    (hcache : o.cache = g.toCache call.function g.pcs.length) (hdone : (finishCall call o).Complete call.source)
    (hpc : pc ∈ g.pcs) (hrange : call.source.pcRanges.isInRange pc = true) :
    Translatable call.source pc ∧ LiteralRead call.source pc := by
  have hunit := hdone.units ⟨pc, g.head pc⟩
    (by rw [wrapper_of_finished hcache]; exact List.mem_map_of_mem hpc) hrange
  have hblock := hdone.blocks (g.block pc)
    (by rw [wrapper_of_finished hcache]; exact List.mem_cons_of_mem _ (List.mem_map_of_mem hpc))
  refine ⟨(translatable_iff call.function hrange).mpr ?_, hunit.2⟩
  obtain ⟨p, hp, hcode⟩ := linked_of_finished h hpc
  refine ⟨p, hp, fun hskip => ?_⟩
  rcases piece_of_inRange hrange hp with ⟨-, rfl⟩ | ⟨_, _, _, -, -, -, -, hnext⟩
  · obtain ⟨terminator, hlast, -⟩ := hblock
    rw [hcode] at hlast
    cases hlast
  · exact Successor.next_ne_skip hnext hskip

/-- `instrument_memory_access` meets its interface on an input if and only if the entry is in the ranges, every
    instruction in the ranges that can be reached has a translator that comes to its end, and every literal is
    read. -/
theorem failureReported_iff (call : Call) :
    FailureReported call ↔ call.source.pcRanges.isInRange call.source.entryPc = true ∧
      ∀ pc, Worklist.Reachable (successors call.source) call.source.entryPc pc →
        call.source.pcRanges.isInRange pc = true → Translatable call.source pc ∧ LiteralRead call.source pc := by
  constructor
  · rintro ⟨done, hcall, -, hreported⟩
    have hcomplete : done.Complete call.source := by
      by_contra h
      obtain ⟨code, hne, hcode⟩ := hreported h
      exact hne (code_eq_zero hcall hcode)
    by_cases hentry : call.source.pcRanges.isInRange call.source.entryPc = true
    · obtain ⟨o, ho, hended⟩ := instrumentMemoryAccess_empty hentry
      cases ho.symm.trans hcall
      rcases hended with ⟨-, g, hbuilt, -, hcache, -⟩ | ⟨hfailed, -⟩
      · exact ⟨hentry, fun pc hpc hrange =>
          translatable_of_complete hbuilt hcache hcomplete ((mem_pcs_iff hbuilt).mpr hpc) hrange⟩
      · exact absurd (finishCall_failure.symm.trans hcomplete.failure) hfailed
    · obtain ⟨c, hc⟩ := instrumentMemoryAccess_of_not_inRange hentry
      cases hc.symm.trans hcall
      cases hcomplete.failure
  · rintro ⟨hentry, hall⟩
    obtain ⟨o, ho, hended⟩ := instrumentMemoryAccess_empty hentry
    rcases hended with ⟨hfailure, g, hbuilt, -, hcache, -⟩ | ⟨-, pc, hpc, hnone⟩
    · have hcomplete := complete_of_translatable hbuilt hfailure hcache fun pc hpc hrange =>
        hall pc ((mem_pcs_iff hbuilt).mp hpc) hrange
      exact ⟨_, ho, fun _ => hcomplete, fun h => absurd hcomplete h⟩
    · obtain ⟨p, hp, -⟩ := piece_isSome call.function fun hrange => (hall pc hpc hrange).1
      cases hnone.symm.trans hp

/-- `LDR R0, [PC, #0]`, whose literal cannot be read. -/
def unreadLiteral : Source where
  disassembler _ _ := ⟨.success, .tLDRpciASM, [.reg .r0, .imm 0] ++ Operand.always, 2⟩
  memory address size := if address < 2 then (size, [0x00, 0x48].take size) else (0, [])
  entryPc := 0
  pcRanges := [(0, 2)]

/-- The call returns 0 and has translated a literal that it did not read. -/
theorem not_failureReported : ¬FailureReported ⟨unreadLiteral, 0, fun _ => .compiled⟩ := by
  rintro ⟨done, hdone, hcomplete, -⟩
  have hrun : (instrumentMemoryAccess ⟨unreadLiteral, 0, fun _ => .compiled⟩ Cache.empty).map
      (fun done => (done.result, done.wrapper.units)) = some (.returned 0, [⟨0, 1⟩, ⟨2, 2⟩]) := by decide +kernel
  rw [hdone] at hrun
  obtain ⟨hresult, hunits⟩ := Prod.mk.inj (Option.some.inj hrun)
  have hliteral := ((hcomplete hresult).units ⟨0, 1⟩ (by rw [hunits]; decide) (by decide)).2
  exact absurd (hliteral _ 0 rfl rfl rfl) (by decide)

end Avatar.Translator
