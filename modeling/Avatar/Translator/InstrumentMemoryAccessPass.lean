import Avatar.Lib.SsaCalls
import Avatar.Lib.Traversal
import Avatar.Translator.Translators

/-! `InstrumentMemoryAccessPass`: the loads and stores that are marked as translated become calls of the handlers
    that the entry block has loaded. The casts around a call belong to it. -/

namespace Avatar.Translator

abbrev CallInstr := Ssa.CallInstr Register (Nat × Argument)

abbrev CallBlock := Ssa.CallBlock Register (Nat × Argument)

/-- The size of the integers that a pointer points to. An assertion fails where it has another type, and only the
    address of an element records the size here. -/
def elementSize : Value → Option (BitVec 32)
  | .gep size _ _ => if size = 1 ∨ size = 2 ∨ size = 4 then some size else none
  | _ => none

/-- The body of the loop. -/
def runOnInstruction : Instr → Option CallInstr
  | .load ty address metadata =>
    if metadata = translatedMemoryAccess then (elementSize address).map fun size => .read ty address size
    else some (.plain (.load ty address metadata))
  | .store value address metadata =>
    if metadata = translatedMemoryAccess then (elementSize address).map fun size => .write address size value
    else some (.plain (.store value address metadata))
  | instr => some (.plain instr)

def runOnBasicBlock (bb : BasicBlock) : Option CallBlock :=
  (bb.code.mapM runOnInstruction).map fun code => ⟨bb.phis, code⟩

/-- `instrumentMemoryAccess` of the translator, for the blocks of its function. -/
def instrumentBlocks (blocks : List BasicBlock) : Option (List CallBlock) := blocks.mapM runOnBasicBlock

/-! ### What the pass does to each instruction -/

/-- The pass leaves the instruction as it is. -/
def Untouched (instr : Instr) : Prop := runOnInstruction instr = some (.plain instr)

theorem untouched_of_isTerminator {instr : Instr} (h : instr.isTerminator = true) : Untouched instr := by
  cases instr with
  | load | store => cases h
  | br | condBr | retVoid => rfl

theorem untouched_load {ty : Ssa.Ty} {address : Value} {metadata : Option String}
    (h : metadata ≠ translatedMemoryAccess) : Untouched (.load ty address metadata) := if_neg h

theorem untouched_store {value address : Value} {metadata : Option String}
    (h : metadata ≠ translatedMemoryAccess) : Untouched (.store value address metadata) := if_neg h

theorem mapM_untouched {code : List Instr} (h : ∀ instr ∈ code, Untouched instr) :
    code.mapM runOnInstruction = some (code.map .plain) := by
  rw [Traversal.mapM_eq_some_iff]
  induction code with
  | nil => exact .nil
  | cons instr code ih => exact .cons (h instr (.head _)) (ih fun i hi => h i (List.mem_cons_of_mem _ hi))

end Avatar.Translator
