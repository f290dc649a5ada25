import Avatar.Translator.InstrumentMemoryAccessPass
import Avatar.Translator.Semantics

/-! What the instrumentation makes of the code of each translator: the loads and stores of `LDR`, `LDRH`, `STR` and
    `STRH` become the calls that stand for the accesses of the instruction, and the stores of `PUSH` are left alone. -/

namespace Avatar.Translator
open Ssa (Access)

/-! ### The code of a translator -/

namespace EmitM
variable {α β : Type} {P : Instr → Prop} {inst : MCInst} {i : Nat}

/-- All the instructions that are inserted have the property. -/
def Emits (P : Instr → Prop) (m : EmitM α) : Prop :=
  ∀ e a e', m e = some (a, e') → ∃ code, e'.code = e.code ++ code ∧ ∀ instr ∈ code, P instr

namespace Emits

theorem keep {m : EmitM α} (h : ∀ e a e', m e = some (a, e') → e'.code = e.code) : Emits P m := by
  intro e a e' hm
  exact ⟨[], by rw [h e a e' hm, List.append_nil], fun _ h => absurd h List.not_mem_nil⟩

theorem pure (a : α) : Emits P (pure a) := by
  refine keep fun e b e' h => ?_
  cases h
  rfl

theorem bind {m : EmitM α} {f : α → EmitM β} (hm : Emits P m) (hf : ∀ a, Emits P (f a)) : Emits P (m >>= f) := by
  intro e b e'' h
  obtain ⟨⟨a, e'⟩, hm', hf'⟩ := Option.bind_eq_some_iff.mp h
  obtain ⟨code, hcode, hP⟩ := hm e a e' hm'
  obtain ⟨code', hcode', hP'⟩ := hf a e' b e'' hf'
  refine ⟨code ++ code', by rw [hcode', hcode, List.append_assoc], fun instr hi => ?_⟩
  rcases List.mem_append.mp hi with hi | hi
  · exact hP instr hi
  · exact hP' instr hi

theorem failure : Emits P (failure : EmitM α) := fun e a e' h => by cases h

theorem getReg : Emits P (getReg inst i) := by
  rw [EmitM.getReg]
  split
  · exact pure _
  · exact failure

theorem getImm : Emits P (getImm inst i) := by
  rw [EmitM.getImm]
  split
  · exact pure _
  · exact failure

theorem assertion {p : Prop} [Decidable p] : Emits P (guard p) := by
  rw [guard]
  split
  · exact pure _
  · exact failure

theorem assertOperand {operand : Operand} : Emits P (assertOperand inst i operand) := assertion

theorem assertAlways : Emits P (assertAlways inst i) := assertOperand.bind fun _ => assertOperand

theorem getValue {id : Register} : Emits P (getValue id) := by
  refine keep fun e val e' h => ?_
  rw [getValue_apply] at h
  obtain ⟨_, -, h⟩ := Option.map_eq_some_iff.mp h
  cases h
  rfl

theorem setValue {id : Register} {val : Value} : Emits P (setValue id val) := by
  refine keep fun e a e' h => ?_
  cases h
  rfl

theorem foldlM {f : β → α → EmitM β} (h : ∀ b a, Emits P (f b a)) (b : β) (l : List α) : Emits P (l.foldlM f b) := by
  induction l generalizing b with
  | nil => exact pure b
  | cons a l ih =>
    rw [List.foldlM_cons]
    exact bind (h b a) fun b => ih b

theorem insert {instr : Instr} (h : P instr) : Emits P (insert instr) := by
  intro e a e' hm
  cases hm
  exact ⟨[instr], rfl, fun i hi => List.mem_singleton.mp hi ▸ h⟩

end Emits

end EmitM

section Translators
open EmitM Emits

theorem emits_setZN {P : Instr → Prop} {result : Value} : Emits P (setZN result) := bind setValue fun _ => setValue

theorem emits_compare {P : Instr → Prop} {lhs rhs : Value} : Emits P (compare lhs rhs) :=
  bind setValue fun _ => bind setValue fun _ => bind setValue fun _ => setValue

theorem emits_add {P : Instr → Prop} {d : Register} {rn rm : Value} : Emits P (add d rn rm) :=
  bind setValue fun _ => bind emits_setZN fun _ => bind setValue fun _ => setValue

/-- The pass leaves the code of the translator as it is. -/
def Unmarked (translator : MCInst → EmitM Successor) : Prop := ∀ inst, Emits Untouched (translator inst)

/-- The translator emits no code. -/
def Silent (translator : MCInst → EmitM Successor) : Prop := ∀ (P : Instr → Prop) (inst : MCInst), Emits P (translator inst)

theorem Silent.unmarked {translator : MCInst → EmitM Successor} (h : Silent translator) : Unmarked translator :=
  h Untouched

theorem Silent.code_eq_nil {translator : MCInst → EmitM Successor} (h : Silent translator) {inst : MCInst}
    {successor : Successor} {e : Emission} (he : translator inst ⟨[], initialValues⟩ = some (successor, e)) :
    e.code = [] := by
  obtain ⟨code, hcode, hnone⟩ := h (fun _ => False) inst _ _ _ he
  rw [hcode, List.eq_nil_iff_forall_not_mem.mpr hnone, List.append_nil]

/-- The stores of `tPUSH` are marked, but not as the pass expects it. -/
theorem unmarked_tPUSH : Unmarked tPUSH := by
  intro inst
  refine bind assertion fun _ => bind getValue fun _ => bind (foldlM (fun ptr op => ?_) _ _) fun _ => ?_
  · cases op with
    | imm value => exact failure
    | reg register => exact bind getValue fun _ => bind (insert (untouched_store (by decide))) fun _ => pure _
  · exact bind setValue fun _ => pure _

theorem silent_tLDRpciASM (memory : CodeMemory) : Silent (tLDRpciASM memory) := by
  intro P inst
  refine bind assertAlways fun _ => bind getImm fun _ => ?_
  exact bind getReg fun _ => bind setValue fun _ => pure _

theorem silent_tCMPr : Silent tCMPr := by
  intro P inst
  refine bind assertAlways fun _ => bind getReg fun _ => bind getValue fun _ => ?_
  exact bind getReg fun _ => bind getValue fun _ => bind emits_compare fun _ => pure _

theorem silent_tCMPi8 : Silent tCMPi8 := by
  intro P inst
  refine bind assertAlways fun _ => bind getReg fun _ => bind getValue fun _ => ?_
  exact bind getImm fun _ => bind emits_compare fun _ => pure _

theorem silent_tADDi8 : Silent tADDi8 := by
  intro P inst
  refine bind assertAlways fun _ => bind assertOperand fun _ => bind getReg fun _ => bind getValue fun _ => ?_
  exact bind getReg fun _ => bind getImm fun _ => bind emits_add fun _ => pure _

theorem silent_tADDrr : Silent tADDrr := by
  intro P inst
  refine bind assertAlways fun _ => bind assertOperand fun _ => ?_
  refine bind getReg fun _ => bind getValue fun _ => bind getReg fun _ => bind getValue fun _ => ?_
  exact bind getReg fun _ => bind emits_add fun _ => pure _

theorem silent_tSUBi8 : Silent tSUBi8 := by
  intro P inst
  refine bind assertOperand fun _ => bind assertAlways fun _ => bind getReg fun _ => bind getValue fun _ => ?_
  exact bind getImm fun _ => bind getReg fun _ => bind setValue fun _ => bind emits_compare fun _ => pure _

theorem silent_tMOVi8 : Silent tMOVi8 := by
  intro P inst
  refine bind assertAlways fun _ => bind assertOperand fun _ => bind getImm fun _ => ?_
  exact bind getReg fun _ => bind setValue fun _ => bind emits_setZN fun _ => pure _

theorem silent_logical (op : Value → Value → Value) : Silent fun inst => logical inst op := by
  intro P inst
  refine bind assertAlways fun _ => bind assertOperand fun _ => ?_
  refine bind getReg fun _ => bind getValue fun _ => bind getReg fun _ => bind getValue fun _ => ?_
  exact bind getReg fun _ => bind setValue fun _ => bind emits_setZN fun _ => pure _

theorem silent_tLSLri : Silent tLSLri := by
  intro P inst
  refine bind assertAlways fun _ => bind assertOperand fun _ => bind getReg fun _ => bind getValue fun _ => ?_
  refine bind getImm fun _ => bind getReg fun _ => bind setValue fun _ => ?_
  exact bind emits_setZN fun _ => bind setValue fun _ => pure _

theorem silent_tLSRri : Silent tLSRri := by
  intro P inst
  refine bind assertAlways fun _ => bind assertOperand fun _ => bind getReg fun _ => bind getValue fun _ => ?_
  refine bind getImm fun _ => bind getReg fun _ => bind setValue fun _ => ?_
  exact bind emits_setZN fun _ => bind setValue fun _ => pure _

theorem silent_tB : Silent tB := fun _ _ => bind assertAlways fun _ => bind getImm fun _ => pure _

theorem silent_tBcc : Silent tBcc := fun _ _ =>
  bind assertOperand fun _ => bind getImm fun _ => bind getImm fun _ => pure _

section Marked
variable {inst : MCInst} {d n : Register} {imm : Int}

/-- The address of an element behind the base register. -/
def elementPtr (size : BitVec 32) (n : Register) (imm : Int) : Value := .gep size (.intToPtr (.phi n)) (int32 imm)

theorem lookup_low {r : Register} (h : r.isLow = true) : initialValues.lookup r = some (.phi r) :=
  lookup_initialValues r (mem_of_registerType (registerType_of_isLow h).1)

theorem emission_tLDRHi (hoperands : inst.operands = [.reg d, .reg n, .imm imm] ++ Operand.always)
    (hn : n.isLow = true) : tLDRHi inst ⟨[], initialValues⟩ = some (.fallThrough,
      ⟨[.load .i16 (elementPtr 2 n imm) translatedMemoryAccess], initialValues.set d (.zext (.result 0))⟩) := by
  have hget (i : Nat) := congrArg (fun operands => operands[i]?) hoperands
  simp only [tLDRHi, bind_apply, assertAlways_apply (hget 3) (hget 4), getReg_apply (hget 0), getReg_apply (hget 1),
    getImm_apply (hget 2), getValue_apply, lookup_low hn, insert_apply, setValue_apply, pure_apply, Option.map_some,
    Option.bind_some]
  rfl

theorem emission_tLDRi (hoperands : inst.operands = [.reg d, .reg n, .imm imm] ++ Operand.always)
    (hn : n.isLow = true) : tLDRi inst ⟨[], initialValues⟩ = some (.fallThrough,
      ⟨[.load .i32 (elementPtr 4 n imm) translatedMemoryAccess], initialValues.set d (.result 0)⟩) := by
  have hget (i : Nat) := congrArg (fun operands => operands[i]?) hoperands
  simp only [tLDRi, bind_apply, assertAlways_apply (hget 3) (hget 4), getReg_apply (hget 0), getReg_apply (hget 1),
    getImm_apply (hget 2), getValue_apply, lookup_low hn, insert_apply, setValue_apply, pure_apply, Option.map_some,
    Option.bind_some]
  rfl

theorem emission_tSTRHi (hoperands : inst.operands = [.reg d, .reg n, .imm imm] ++ Operand.always)
    (hd : d.isLow = true) (hn : n.isLow = true) : tSTRHi inst ⟨[], initialValues⟩ = some (.fallThrough,
      ⟨[.store (.trunc (.phi d)) (elementPtr 2 n imm) translatedMemoryAccess], initialValues⟩) := by
  have hget (i : Nat) := congrArg (fun operands => operands[i]?) hoperands
  simp only [tSTRHi, bind_apply, assertAlways_apply (hget 3) (hget 4), getReg_apply (hget 0), getReg_apply (hget 1),
    getImm_apply (hget 2), getValue_apply, lookup_low hd, lookup_low hn, insert_apply, pure_apply, Option.map_some,
    Option.bind_some]
  rfl

theorem emission_tSTRi (hoperands : inst.operands = [.reg d, .reg n, .imm imm] ++ Operand.always)
    (hd : d.isLow = true) (hn : n.isLow = true) : tSTRi inst ⟨[], initialValues⟩ = some (.fallThrough,
      ⟨[.store (.phi d) (elementPtr 4 n imm) translatedMemoryAccess], initialValues⟩) := by
  have hget (i : Nat) := congrArg (fun operands => operands[i]?) hoperands
  simp only [tSTRi, bind_apply, assertAlways_apply (hget 3) (hget 4), getReg_apply (hget 0), getReg_apply (hget 1),
    getImm_apply (hget 2), getValue_apply, lookup_low hd, lookup_low hn, insert_apply, pure_apply, Option.map_some,
    Option.bind_some]
  rfl

end Marked

end Translators

/-! ### The accesses of an instruction -/

/-- The address of an element behind a base register. -/
def Registers.element (registers : Registers) (size : BitVec 32) (n : Register) (imm : Int) : BitVec 32 :=
  registers.word n + BitVec.ofInt 32 imm * size

/-- The registers, stored one after the other from an address on. -/
def Registers.stored (registers : Registers) : BitVec 32 → List Operand → List Access
  | address, .reg r :: operands => .write address 4 (registers.word r) :: registers.stored (address + 4) operands
  | address, .imm _ :: operands => registers.stored address operands
  | _, [] => []

/-- The accesses to data memory that an instruction performs. The operands of `PUSH` behind the predicate are the
    registers, in the order of their addresses, and the stack pointer ends at the first one. A literal is read from
    the code memory, when it is translated. -/
def MCInst.accesses (inst : MCInst) (registers : Registers) : List Access :=
  match inst.opcode, inst.operands with
  | .tLDRi, .reg _ :: .reg n :: .imm imm :: _ => [.read (registers.element 4 n imm) 4]
  | .tLDRHi, .reg _ :: .reg n :: .imm imm :: _ => [.read (registers.element 2 n imm) 2]
  | .tSTRi, .reg d :: .reg n :: .imm imm :: _ => [.write (registers.element 4 n imm) 4 (registers.word d)]
  | .tSTRHi, .reg d :: .reg n :: .imm imm :: _ =>
    [.write (registers.element 2 n imm) 2 (((registers.word d).setWidth 16).setWidth 32)]
  | .tPUSH, _ :: _ :: operands =>
    registers.stored (registers.word .sp - 4 * BitVec.ofNat 32 operands.length) operands
  | _, _ => []

/-- The calls that the instrumented code of an instruction makes. -/
def MCInst.mediated (inst : MCInst) (registers : Registers) : List Access :=
  if inst.opcode = .tPUSH then [] else inst.accesses registers

/-- The instrumented code of an instruction. Its calls depend on the registers only. -/
structure Mediates (inst : MCInst) (code : List Instr) (code' : List CallInstr) : Prop where
  pass : code.mapM runOnInstruction = some code'
  closed : ∀ (registers : Registers), ∀ instr ∈ code', ∀ results,
    instr.calls ⟨registers, results⟩ = instr.calls ⟨registers, []⟩
  calls : ∀ registers : Registers, registers.Typed →
    code'.flatMap (·.calls ⟨registers, []⟩) = inst.mediated registers

section Mediates
variable {inst : MCInst}

theorem mediates_untouched {code : List Instr} (hcode : ∀ instr ∈ code, Untouched instr)
    (h : ∀ registers, inst.mediated registers = []) : Mediates inst code (code.map .plain) where
  pass := mapM_untouched hcode
  closed registers instr hi results := by
    obtain ⟨_, -, rfl⟩ := List.mem_map.mp hi
    rfl
  calls registers _ := by
    rw [h, List.flatMap_eq_nil_iff]
    intro instr hi
    obtain ⟨_, -, rfl⟩ := List.mem_map.mp hi
    rfl

theorem mediates_unmarked {translator : MCInst → EmitM Successor} (hunmarked : Unmarked translator)
    {successor : Successor} {e : Emission} (he : translator inst ⟨[], initialValues⟩ = some (successor, e))
    (h : ∀ registers, inst.mediated registers = []) : ∃ code', Mediates inst e.code code' := by
  obtain ⟨code, hcode, huntouched⟩ := hunmarked inst _ _ _ he
  rw [List.nil_append] at hcode
  exact ⟨_, mediates_untouched (hcode ▸ huntouched) h⟩

theorem eval_elementPtr {registers : Registers} (htyped : registers.Typed) {n : Register} (hn : n.isLow = true)
    (size : BitVec 32) (imm : Int) (results : List (Option (Ssa.Val (Nat × Argument)))) :
    (elementPtr size n imm).eval ⟨registers, results⟩ = some (.i32 (registers.element size n imm)) := by
  have hword := htyped.word (registerType_of_isLow hn).1
  simp only [elementPtr, int32, Ssa.Value.eval, hword]
  rfl

theorem mediates_single {instr : Instr} {instr' : CallInstr} (hpass : runOnInstruction instr = some instr')
    (hclosed : ∀ (registers : Registers) results, instr'.calls ⟨registers, results⟩ = instr'.calls ⟨registers, []⟩)
    (hcalls : ∀ registers : Registers, registers.Typed → instr'.calls ⟨registers, []⟩ = inst.mediated registers) :
    Mediates inst [instr] [instr'] where
  pass := by
    rw [List.mapM_cons, hpass, List.mapM_nil]
    rfl
  closed registers i hi results := by
    rw [List.mem_singleton.mp hi]
    exact hclosed registers results
  calls registers htyped := by
    rw [List.flatMap_singleton]
    exact hcalls registers htyped

section Marked
variable {d n : Register} {imm : Int}

theorem runOnInstruction_load {ty : Ssa.Ty} {address : Value} {size : BitVec 32}
    (hsize : elementSize address = some size) :
    runOnInstruction (.load ty address translatedMemoryAccess) = some (.read ty address size) := by
  rw [runOnInstruction, if_pos rfl, hsize]
  rfl

theorem runOnInstruction_store {val address : Value} {size : BitVec 32} (hsize : elementSize address = some size) :
    runOnInstruction (.store val address translatedMemoryAccess) = some (.write address size val) := by
  rw [runOnInstruction, if_pos rfl, hsize]
  rfl

theorem mediates_load {ty : Ssa.Ty} {size : BitVec 32} (hsize : elementSize (elementPtr size n imm) = some size)
    (hn : n.isLow = true) (h : ∀ registers, inst.mediated registers = [.read (registers.element size n imm) size]) :
    Mediates inst [.load ty (elementPtr size n imm) translatedMemoryAccess] [.read ty (elementPtr size n imm) size] := by
  refine mediates_single (runOnInstruction_load hsize) (fun _ _ => rfl) fun registers htyped => ?_
  rw [Ssa.CallInstr.calls, eval_elementPtr htyped hn, h]

theorem mediates_store {val : Value} {size : BitVec 32} (word : Registers → BitVec 32)
    (hsize : elementSize (elementPtr size n imm) = some size) (hn : n.isLow = true)
    (hval : ∀ registers : Registers, registers.Typed → ∀ results,
      (val.eval ⟨registers, results⟩).bind Ssa.Val.word = some (word registers))
    (hclosed : ∀ (registers : Registers) results, val.eval ⟨registers, results⟩ = val.eval ⟨registers, []⟩)
    (h : ∀ registers, inst.mediated registers =
      [.write (registers.element size n imm) size (word registers)]) :
    Mediates inst [.store val (elementPtr size n imm) translatedMemoryAccess]
      [.write (elementPtr size n imm) size val] := by
  refine mediates_single (runOnInstruction_store hsize) (fun registers results => ?_) fun registers htyped => ?_
  · rw [Ssa.CallInstr.calls, hclosed]
    rfl
  · rw [Ssa.CallInstr.calls, eval_elementPtr htyped hn, hval registers htyped, h]

end Marked

/-- The instrumented code of every translator makes the calls that stand for the accesses of its instruction, but
    for `tPUSH`. -/
theorem exists_mediates {memory : CodeMemory} {translator : MCInst → EmitM Successor}
    (h : WellFormed inst.opcode inst.operands)
    (htranslator : instructionTranslator memory inst.opcode = some translator) {successor : Successor} {e : Emission}
    (he : translator inst ⟨[], initialValues⟩ = some (successor, e)) : ∃ code', Mediates inst e.code code' := by
  cases hopcode : inst.opcode <;> rw [hopcode] at h htranslator <;> cases htranslator
  case tLDRHi =>
    obtain ⟨d, n, imm, hoperands, -, hn⟩ := exists_transferred h
    rw [emission_tLDRHi hoperands hn] at he
    cases he
    refine ⟨_, mediates_load rfl hn fun registers => ?_⟩
    simp only [MCInst.mediated, MCInst.accesses, hopcode, hoperands]
    rfl
  case tLDRi =>
    obtain ⟨d, n, imm, hoperands, -, hn⟩ := exists_transferred h
    rw [emission_tLDRi hoperands hn] at he
    cases he
    refine ⟨_, mediates_load rfl hn fun registers => ?_⟩
    simp only [MCInst.mediated, MCInst.accesses, hopcode, hoperands]
    rfl
  case tSTRHi =>
    obtain ⟨d, n, imm, hoperands, hd, hn⟩ := exists_transferred h
    rw [emission_tSTRHi hoperands hd hn] at he
    cases he
    refine ⟨_, mediates_store (fun registers => ((registers.word d).setWidth 16).setWidth 32) rfl hn
      (fun registers htyped results => ?_) (fun _ _ => rfl) fun registers => ?_⟩
    · simp only [Ssa.Value.eval, htyped.word (registerType_of_isLow hd).1]
      rfl
    · simp only [MCInst.mediated, MCInst.accesses, hopcode, hoperands]
      rfl
  case tSTRi =>
    obtain ⟨d, n, imm, hoperands, hd, hn⟩ := exists_transferred h
    rw [emission_tSTRi hoperands hd hn] at he
    cases he
    refine ⟨_, mediates_store (fun registers => registers.word d) rfl hn
      (fun registers htyped results => ?_) (fun _ _ => rfl) fun registers => ?_⟩
    · simp only [Ssa.Value.eval, htyped.word (registerType_of_isLow hd).1]
      rfl
    · simp only [MCInst.mediated, MCInst.accesses, hopcode, hoperands]
      rfl
  case tPUSH => exact mediates_unmarked unmarked_tPUSH he fun _ => if_pos hopcode
  all_goals
    have hnone : ∀ registers, inst.mediated registers = [] := fun registers => by
      simp only [MCInst.mediated, MCInst.accesses, hopcode, if_neg, reduceCtorEq, not_false_eq_true]
  case tLDRpciASM => exact mediates_unmarked (silent_tLDRpciASM memory).unmarked he hnone
  case tCMPr => exact mediates_unmarked silent_tCMPr.unmarked he hnone
  case tBcc => exact mediates_unmarked silent_tBcc.unmarked he hnone
  case tADDi8 => exact mediates_unmarked silent_tADDi8.unmarked he hnone
  case tMOVi8 => exact mediates_unmarked silent_tMOVi8.unmarked he hnone
  case tLSLri => exact mediates_unmarked silent_tLSLri.unmarked he hnone
  case tORR => exact mediates_unmarked (silent_logical _).unmarked he hnone
  case tBIC => exact mediates_unmarked (silent_logical _).unmarked he hnone
  case tB => exact mediates_unmarked silent_tB.unmarked he hnone
  case tCMPi8 => exact mediates_unmarked silent_tCMPi8.unmarked he hnone
  case tADDi3 => exact mediates_unmarked silent_tADDi8.unmarked he hnone
  case tSUBi8 => exact mediates_unmarked silent_tSUBi8.unmarked he hnone
  case tADDrr => exact mediates_unmarked silent_tADDrr.unmarked he hnone
  case tAND => exact mediates_unmarked (silent_logical _).unmarked he hnone
  case tLSRri => exact mediates_unmarked silent_tLSRri.unmarked he hnone

end Mediates

end Avatar.Translator
