import Avatar.Translator.Build
import Avatar.Translator.Typing

/-! What the translation of a program counter is when its instruction decodes with success and has a
    translator: typed code without terminators, a value for each register, and an end. -/

namespace Avatar.Translator

variable {source : Source} {function : Nat} {pc : BitVec 64}

/-- The instruction at `pc` decodes with success and has a translator. -/
def Source.Decodes (source : Source) (pc : BitVec 64) : Prop :=
  (source.disassembler source.memory pc).status = .success ∧
    (instructionTranslator source.memory (source.disassembler source.memory pc).opcode).isSome = true

/-- If `pc` is in the ranges its instruction decodes with success and has a translator. -/
def Source.DecodesInRanges (source : Source) (pc : BitVec 64) : Prop :=
  source.pcRanges.isInRange pc = true → source.Decodes pc

/-- Control goes on, by a condition of type `i1` if there is one. -/
def Next.Typed (results : List (Option Ssa.Ty)) : Next → Prop
  | exit | skip => False
  | goto _ => True
  | branch cond _ _ => Value.Typed results cond .i1

/-- The translator of the instruction at `pc` and what it does to a new unit. -/
structure Translation (source : Source) (pc : BitVec 64) where
  inst : MCInst
  translator : MCInst → EmitM Successor
  successor : Successor
  emission : Emission
  results : List (Option Ssa.Ty)
  next : Next
  decode_eq : decode source pc = .ok (some inst)
  translator_eq : instructionTranslator source.memory inst.opcode = some translator
  emission_eq : translator inst ⟨[], initialValues⟩ = some (successor, emission)
  next_eq : successor.next emission.values inst = some next
  typed : emission.Typed results
  next_typed : next.Typed results

theorem Successor.Valid.next {successor : Successor} (h : successor.Valid) {results : List (Option Ssa.Ty)} {e : Emission}
    (he : e.Typed results) (inst : MCInst) :
    ∃ next, successor.next e.values inst = some next ∧ next.Typed results := by
  cases successor with
  | fallThrough => exact ⟨_, rfl, trivial⟩
  | jump offset => exact ⟨_, rfl, trivial⟩
  | branch offset condition =>
    obtain ⟨cond, hcond, htyped⟩ := getCondition_typed he h.1 h.2
    refine ⟨.branch cond (inst.branchPc offset) inst.nextPc, ?_, htyped⟩
    rw [Successor.next, hcond]
    rfl

theorem Source.Decodes.translation (h : source.Decodes pc) (hconforms : source.disassembler.Conforms) :
    Nonempty (Translation source pc) := by
  obtain ⟨hstatus, hsome⟩ := h
  obtain ⟨translator, htranslator⟩ := Option.isSome_iff_exists.mp hsome
  let decoded := source.disassembler source.memory pc
  let inst : MCInst := ⟨decoded.opcode, decoded.operands, pc, decoded.size⟩
  have hsucceeds : (translator inst).Succeeds [] Successor.Valid :=
    instructionTranslator_succeeds (hconforms _ _ hstatus) htranslator
  obtain ⟨successor, e, results, he, htyped, hvalid⟩ := hsucceeds _ Emission.typed_initial
  obtain ⟨next, hnext, hnextTyped⟩ := hvalid.next htyped inst
  have hdecode : decode source pc = .ok (some inst) := by simp only [decode, hstatus, inst, decoded]
  exact ⟨⟨inst, translator, successor, e, results, next, hdecode, htranslator, he, hnext, htyped, hnextTyped⟩⟩

namespace Translation

def piece (t : Translation source pc) : Piece := ⟨t.emission.code, t.emission.values, t.next⟩

theorem piece_eq (t : Translation source pc) (h : source.pcRanges.isInRange pc = true) (function : Nat) :
    Translator.piece source function pc = some t.piece :=
  piece_of_translator h t.decode_eq t.translator_eq t.emission_eq
    (fun _ hv => t.typed.keys ▸ List.mem_map_of_mem hv) t.next_eq

end Translation

/-- A piece that is closed by one terminator and passes on a value for each register. -/
structure Piece.Closed (p : Piece) : Prop where
  keys : p.values.map (·.1) = valueInformation.map (·.1)
  code : ∀ instr ∈ p.code, instr.isTerminator = false
  next_ne_skip : p.next ≠ .skip

theorem keys_exitValues : exitValues.map (·.1) = valueInformation.map (·.1) := by
  rw [exitValues, Values.keys_set (Emission.typed_initial.keys ▸ by decide)]
  exact Emission.typed_initial.keys

theorem piece_closed (h : source.DecodesInRanges pc) (hconforms : source.disassembler.Conforms) (function : Nat) :
    ∃ p, piece source function pc = some p ∧ p.Closed := by
  cases hrange : source.pcRanges.isInRange pc with
  | true =>
    obtain ⟨t⟩ := (h hrange).translation hconforms
    refine ⟨t.piece, t.piece_eq hrange function, t.typed.keys, t.typed.code.not_isTerminator, fun hskip => ?_⟩
    exact (congrArg (Next.Typed t.results) hskip).mp t.next_typed
  | false =>
    refine ⟨_, piece_exit hrange, keys_exitValues, fun instr hinstr => ?_, nofun⟩
    obtain ⟨_, -, rfl⟩ := List.mem_map.mp hinstr
    rfl

theorem Next.exists_terminator {next : Next} (h : next ≠ .skip) (head : BitVec 64 → Nat) :
    ∃ terminator : Instr, next.terminator head = [terminator] ∧ terminator.isTerminator = true := by
  cases next with
  | skip => exact absurd rfl h
  | exit | goto _ | branch _ _ _ => exact ⟨_, rfl, rfl⟩

/-! ### A loop of two instructions -/

/-- `SUBS r0, #1`, and a `BNE` back to it. -/
def countdown : Source where
  disassembler memory pc :=
    let bytes := (memory pc 2).2
    if bytes = [0x01, 0x38] then
      ⟨.success, .tSUBi8, [.reg .r0, .reg .cpsr, .reg .r0, .imm 1] ++ Operand.always, 2⟩
    else if bytes = [0xFD, 0xD1] then ⟨.success, .tBcc, [.imm (-6), .imm 1, .reg .cpsr], 2⟩
    else ⟨.fail, .other 0, [], 0⟩
  memory address size := (size, ([0x01, 0x38, 0xFD, 0xD1].drop address.toNat).take size)
  entryPc := 0
  pcRanges := [(0, 4)]

theorem countdown_conforms : countdown.disassembler.Conforms := by
  intro memory pc hstatus
  simp only [countdown] at hstatus ⊢
  split
  · exact ⟨_, _, _, rfl, rfl, rfl, trivial⟩
  · rename_i hsub
    rw [if_neg hsub] at hstatus
    split
    · exact ⟨_, 1, rfl, trivial, by decide, by decide⟩
    · rename_i hbranch
      rw [if_neg hbranch] at hstatus
      cases hstatus

theorem countdown_decodesInRanges {pc : BitVec 64}
    (h : Worklist.Reachable (successors countdown) countdown.entryPc pc) : countdown.DecodesInRanges pc := by
  have hsuccessors : [0, 2, 4].flatMap (successors countdown) = [2, 4, 0] := by decide +kernel
  have hmem : pc ∈ [0, 2, 4] := Worklist.mem_of_reachable (.head _) (by rw [hsuccessors]; simp) h
  intro hrange
  simp only [List.mem_cons, List.not_mem_nil, or_false] at hmem
  rcases hmem with rfl | rfl | rfl
  · exact ⟨by decide +kernel, by decide +kernel⟩
  · exact ⟨by decide +kernel, by decide +kernel⟩
  · exact absurd hrange (by decide +kernel)

end Avatar.Translator
