import Avatar.Translator.Thumb

/-! The reverse translators (`ArmReverseTranslators.cpp`). A translator adds code to the head block of its
    unit and updates the values map of the unit. It ends in one of three ways, `Successor`; the units
    that come next are looked up and the terminator is added by `finish`. -/

namespace Avatar.Translator
open Bytes

/-- The parameters of the wrapper function, both pointers to structures. -/
inductive Argument where
  | processorRegisters
  | instrumentationFunctions
deriving DecidableEq, Repr

/-- A value names a member of a parameter by the address of the function, the parameter and the index. -/
abbrev Value := Ssa.Value Register (Nat × Argument)

abbrev Instr := Ssa.Instr Register (Nat × Argument)

abbrev BasicBlock := Ssa.Block Register (Nat × Argument)

/-- `std::map< unsigned, Value* >`, without an order of its keys. -/
abbrev Values := List (Register × Value)

/-- `ReverseTranslationConfiguration::getValueInformation` -/
def valueInformation : List (Register × Ssa.Ty) :=
  [(.r0, .i32), (.r1, .i32), (.r2, .i32), (.r3, .i32), (.r4, .i32), (.r5, .i32), (.r6, .i32), (.r7, .i32),
    (.r8, .i32), (.r9, .i32), (.r10, .i32), (.r11, .i32), (.r12, .i32), (.sp, .i32), (.lr, .i32), (.cpsr, .i32),
    (.flagZ, .i1), (.flagN, .i1), (.flagC, .i1), (.flagV, .i1)]

/-- The entries of the register description, in the order of their indices. -/
def registerDescription : List Register :=
  [.r0, .r1, .r2, .r3, .r4, .r5, .r6, .r7, .r8, .r9, .r10, .r11, .r12, .sp, .lr, .cpsr]

/-- `values[id] = val` -/
def Values.set (id : Register) (val : Value) : Values → Values
  | [] => [(id, val)]
  | v :: values => if v.1 = id then (id, val) :: values else v :: set id val values

namespace Values
variable {values : Values} {id id' : Register} {val : Value}

theorem set_append {values' : Values} (h : id ∉ values.map (·.1)) :
    Values.set id val (values ++ values') = values ++ values'.set id val := by
  induction values with
  | nil => rfl
  | cons v values ih =>
    obtain ⟨hv, htail⟩ := not_or.mp (mt List.mem_cons.mpr h)
    rw [List.cons_append, set, if_neg (Ne.symm hv), ih htail]
    rfl

theorem keys_set (h : id ∈ values.map (·.1)) : (values.set id val).map (·.1) = values.map (·.1) := by
  induction values with
  | nil => exact absurd h List.not_mem_nil
  | cons v values ih =>
    rw [set]
    split
    · rename_i hv
      rw [List.map_cons, List.map_cons, hv]
    · rename_i hv
      rw [List.map_cons, List.map_cons, ih ((List.mem_cons.mp h).resolve_left (Ne.symm hv))]

theorem lookup_set_self : (values.set id val).lookup id = some val := by
  induction values with
  | nil => exact List.lookup_cons_self
  | cons v values ih =>
    rw [set]
    split
    · exact List.lookup_cons_self
    · rename_i hv
      rw [List.lookup_cons, beq_false_of_ne (Ne.symm hv)]
      exact ih

theorem lookup_set_of_ne (h : id' ≠ id) : (values.set id val).lookup id' = values.lookup id' := by
  induction values with
  | nil => rw [set, List.lookup_cons, beq_false_of_ne h]
  | cons v values ih =>
    rw [set]
    split
    · rename_i hv
      rw [List.lookup_cons, List.lookup_cons, hv, beq_false_of_ne h]
    · rw [List.lookup_cons, List.lookup_cons, ih]

end Values

structure Emission where
  code : List Instr
  values : Values
deriving DecidableEq, Repr

/-- What a translator does to its unit. There is no result when an assertion fails or a null value is used. -/
abbrev EmitM := StateT Emission Option

inductive Successor where
  | fallThrough
  | jump (offset : Int)
  /-- At an offset if the condition holds, at the next instruction otherwise. -/
  | branch (offset condition : Int)
deriving DecidableEq, Repr

namespace EmitM

/-- `values[id]`, which is null for an id that has no value. -/
def getValue (id : Register) : EmitM Value := do
  StateT.lift ((← get).values.lookup id)

def setValue (id : Register) (val : Value) : EmitM Unit :=
  modify fun e => { e with values := e.values.set id val }

def insert (instr : Instr) : EmitM Value := do
  let e ← get
  set { e with code := e.code ++ [instr] }
  return .result e.code.length

/-- `getOperand(i).getReg()` -/
def getReg (inst : MCInst) (i : Nat) : EmitM Register :=
  match inst.operands[i]? with
  | some (.reg register) => return register
  | _ => failure

/-- `getOperand(i).getImm()` -/
def getImm (inst : MCInst) (i : Nat) : EmitM Int :=
  match inst.operands[i]? with
  | some (.imm value) => return value
  | _ => failure

def assertOperand (inst : MCInst) (i : Nat) (operand : Operand) : EmitM Unit :=
  guard (inst.operands[i]? = some operand)

/-- The assertions that the operands from `i` on are the predicate `AL`. -/
def assertAlways (inst : MCInst) (i : Nat) : EmitM Unit := do
  assertOperand inst i (.imm condAL)
  assertOperand inst (i + 1) (.reg .noRegister)

/-! ### Evaluation -/

section Evaluation
variable {α β : Type} {e : Emission} {inst : MCInst} {i : Nat} {register : Register} {value : Int}

@[simp] theorem bind_apply (x : EmitM α) (f : α → EmitM β) (e : Emission) :
    (x >>= f) e = (x e).bind fun r => f r.1 r.2 := rfl

@[simp] theorem pure_apply (a : α) (e : Emission) : (pure a : EmitM α) e = some (a, e) := rfl

@[simp] theorem insert_apply (instr : Instr) (e : Emission) :
    insert instr e = some (.result e.code.length, { e with code := e.code ++ [instr] }) := rfl

@[simp] theorem setValue_apply (id : Register) (val : Value) (e : Emission) :
    setValue id val e = some ((), { e with values := e.values.set id val }) := rfl

@[simp] theorem getValue_apply (id : Register) (e : Emission) :
    getValue id e = (e.values.lookup id).map fun val => (val, e) := by
  show ((e.values.lookup id).bind fun val => some (val, e)) = _
  rw [Option.map_eq_bind]
  rfl

theorem getReg_apply (h : inst.operands[i]? = some (.reg register)) : getReg inst i e = some (register, e) := by
  rw [getReg, h]
  rfl

theorem getImm_apply (h : inst.operands[i]? = some (.imm value)) : getImm inst i e = some (value, e) := by
  rw [getImm, h]
  rfl

theorem assertOperand_apply {operand : Operand} (h : inst.operands[i]? = some operand) :
    assertOperand inst i operand e = some ((), e) := by
  rw [assertOperand, guard, if_pos h]
  rfl

theorem assertAlways_apply (h : inst.operands[i]? = some (.imm condAL))
    (h' : inst.operands[i + 1]? = some (.reg .noRegister)) : assertAlways inst i e = some ((), e) := by
  rw [assertAlways, bind_apply, assertOperand_apply h]
  exact assertOperand_apply h'

end Evaluation

end EmitM

open EmitM

/-- `builder.getInt32` -/
def int32 (i : Int) : Value := .int32 (BitVec.ofInt 32 i)

def sign (v : Value) : Value := .icmp .ne (.binary .lshr v (int32 31)) (int32 0)

/-- The metadata of an access to the memory of the original program. -/
def translatedMemoryAccess : Option String := some "translated_memory_access"

def setZN (result : Value) : EmitM Unit := do
  setValue .flagZ (.icmp .eq result (int32 0))
  setValue .flagN (sign result)

def overflowSub (lhs rhs : Value) : Value :=
  .binary .and (.binary .xor (sign lhs) (sign rhs)) (.binary .xor (sign lhs) (sign (.binary .sub lhs rhs)))

def compare (lhs rhs : Value) : EmitM Unit := do
  setValue .flagZ (.icmp .eq lhs rhs)
  setValue .flagC (.icmp .uge lhs rhs)
  setValue .flagN (sign (.binary .sub lhs rhs))
  setValue .flagV (overflowSub lhs rhs)

def add (d : Register) (rn rm : Value) : EmitM Unit := do
  let rd := .binary .add rn rm
  setValue d rd
  setZN rd
  setValue .flagC (.binary .or (.icmp .ugt rm rn) (.icmp .ult rd rn))
  setValue .flagV (.binary .and (.not (.binary .xor (sign rn) (sign rm))) (.binary .xor (sign rn) (sign rd)))

/-- The common part of the logical instructions, `op` of the two sources. -/
def logical (inst : MCInst) (op : Value → Value → Value) : EmitM Successor := do
  assertAlways inst 4
  assertOperand inst 1 (.reg .cpsr)
  let rn ← getValue (← getReg inst 2)
  let rm ← getValue (← getReg inst 3)
  setValue (← getReg inst 0) (op rn rm)
  setZN (op rn rm)
  return .fallThrough

/-- One register of `tPUSH`: the stack pointer before it is stored; the one after. -/
def pushRegister (stackPtr : Value) (op : Operand) : EmitM Value := do
  match op with
  | .imm _ => failure
  | .reg register =>
    let stackPtr := .gep 4 stackPtr (int32 (-1))
    let regCur ← getValue register
    _ ← insert (.store regCur stackPtr (some "bla"))
    return stackPtr

def tPUSH (inst : MCInst) : EmitM Successor := do
  guard (2 < inst.operands.length)
  let regSp ← getValue .sp
  let stackPtr ← (inst.operands.drop 2).foldlM pushRegister (.intToPtr regSp)
  setValue .sp (.ptrToInt stackPtr)
  return .fallThrough

/-- The address of the word that `tLDRpciASM` reads. The offset is an `unsigned`. -/
def literalAddress (inst : MCInst) (offset : Int) : BitVec 64 :=
  ((inst.pc + 4) &&& 0xFFFFFFFC) + (BitVec.ofInt 32 offset).setWidth 64

/-- The result of `readBytes` is not looked at. -/
def tLDRpciASM (memory : CodeMemory) (inst : MCInst) : EmitM Successor := do
  assertAlways inst 2
  let offset ← getImm inst 1
  let (_, bytes) := readBytes memory (literalAddress inst offset) 4
  setValue (← getReg inst 0) (int32 (ofLE bytes))
  return .fallThrough

def tLDRHi (inst : MCInst) : EmitM Successor := do
  assertAlways inst 3
  let rn ← getValue (← getReg inst 1)
  let addr := .gep 2 (.intToPtr rn) (int32 (← getImm inst 2))
  let load ← insert (.load .i16 addr translatedMemoryAccess)
  setValue (← getReg inst 0) (.zext load)
  return .fallThrough

def tLDRi (inst : MCInst) : EmitM Successor := do
  assertAlways inst 3
  let rn ← getValue (← getReg inst 1)
  let addr := .gep 4 (.intToPtr rn) (int32 (← getImm inst 2))
  let load ← insert (.load .i32 addr translatedMemoryAccess)
  setValue (← getReg inst 0) load
  return .fallThrough

def tSTRHi (inst : MCInst) : EmitM Successor := do
  assertAlways inst 3
  let rn ← getValue (← getReg inst 1)
  let rd ← getValue (← getReg inst 0)
  let addr := .gep 2 (.intToPtr rn) (int32 (← getImm inst 2))
  _ ← insert (.store (.trunc rd) addr translatedMemoryAccess)
  return .fallThrough

def tSTRi (inst : MCInst) : EmitM Successor := do
  assertAlways inst 3
  let rn ← getValue (← getReg inst 1)
  let rd ← getValue (← getReg inst 0)
  let addr := .gep 4 (.intToPtr rn) (int32 (← getImm inst 2))
  _ ← insert (.store rd addr translatedMemoryAccess)
  return .fallThrough

def tCMPr (inst : MCInst) : EmitM Successor := do
  assertAlways inst 2
  let lhs ← getValue (← getReg inst 0)
  let rhs ← getValue (← getReg inst 1)
  compare lhs rhs
  return .fallThrough

def tCMPi8 (inst : MCInst) : EmitM Successor := do
  assertAlways inst 2
  let lhs ← getValue (← getReg inst 0)
  let rhs := int32 (← getImm inst 1)
  compare lhs rhs
  return .fallThrough

/-- Registered for `tADDi8` and `tADDi3`. -/
def tADDi8 (inst : MCInst) : EmitM Successor := do
  assertAlways inst 4
  assertOperand inst 1 (.reg .cpsr)
  let rn ← getValue (← getReg inst 2)
  add (← getReg inst 0) rn (int32 (← getImm inst 3))
  return .fallThrough

def tADDrr (inst : MCInst) : EmitM Successor := do
  assertAlways inst 4
  assertOperand inst 1 (.reg .cpsr)
  let rn ← getValue (← getReg inst 2)
  let rm ← getValue (← getReg inst 3)
  add (← getReg inst 0) rn rm
  return .fallThrough

def tSUBi8 (inst : MCInst) : EmitM Successor := do
  assertOperand inst 1 (.reg .cpsr)
  assertAlways inst 4
  let lhs ← getValue (← getReg inst 2)
  let rhs := int32 (← getImm inst 3)
  setValue (← getReg inst 0) (.binary .sub lhs rhs)
  compare lhs rhs
  return .fallThrough

def tMOVi8 (inst : MCInst) : EmitM Successor := do
  assertAlways inst 3
  assertOperand inst 1 (.reg .cpsr)
  let imm := int32 (← getImm inst 2)
  setValue (← getReg inst 0) imm
  setZN imm
  return .fallThrough

def tORR (inst : MCInst) : EmitM Successor := logical inst (.binary .or)

def tBIC (inst : MCInst) : EmitM Successor := logical inst fun rn rm => .binary .and rn (.not rm)

def tAND (inst : MCInst) : EmitM Successor := logical inst (.binary .and)

def bit (v : Value) (n : Int) : Value :=
  .icmp .ne (.binary .and (.binary .lshr v (int32 n)) (int32 1)) (int32 0)

def tLSLri (inst : MCInst) : EmitM Successor := do
  assertAlways inst 4
  assertOperand inst 1 (.reg .cpsr)
  let rm ← getValue (← getReg inst 2)
  let imm ← getImm inst 3
  let rd := .binary .shl rm (int32 imm)
  setValue (← getReg inst 0) rd
  setZN rd
  setValue .flagC (bit rd (32 - imm))
  return .fallThrough

/-- The flag `C` of a shift by an immediate other than 0 is taken from the result. -/
def tLSRri (inst : MCInst) : EmitM Successor := do
  assertAlways inst 4
  assertOperand inst 1 (.reg .cpsr)
  let rm ← getValue (← getReg inst 2)
  let imm ← getImm inst 3
  let (rd, c) := if imm = 0 then (int32 0, sign rm)
    else (.binary .lshr rm (int32 imm), bit (.binary .lshr rm (int32 imm)) (imm - 1))
  setValue (← getReg inst 0) rd
  setZN rd
  setValue .flagC c
  return .fallThrough

def tB (inst : MCInst) : EmitM Successor := do
  assertAlways inst 1
  return .jump (← getImm inst 0)

def tBcc (inst : MCInst) : EmitM Successor := do
  assertOperand inst 2 (.reg .cpsr)
  return .branch (← getImm inst 0) (← getImm inst 1)

/-- `getArmReverseTranslators`: the translator of an opcode. -/
def instructionTranslator (memory : CodeMemory) : Opcode → Option (MCInst → EmitM Successor)
  | .tPUSH => some tPUSH
  | .tLDRpciASM => some (tLDRpciASM memory)
  | .tLDRHi => some tLDRHi
  | .tCMPr => some tCMPr
  | .tBcc => some tBcc
  | .tADDi8 => some tADDi8
  | .tMOVi8 => some tMOVi8
  | .tSTRHi => some tSTRHi
  | .tLSLri => some tLSLri
  | .tORR => some tORR
  | .tBIC => some tBIC
  | .tB => some tB
  | .tCMPi8 => some tCMPi8
  | .tSTRi => some tSTRi
  | .tADDi3 => some tADDi8
  | .tSUBi8 => some tSUBi8
  | .tLDRi => some tLDRi
  | .tADDrr => some tADDrr
  | .tAND => some tAND
  | .tLSRri => some tLSRri
  | .bx | .other _ => none

/-- `getCondition`: no result when an assertion fails, and `none` where it throws. -/
def getCondition (values : Values) (condition : BitVec 32) : Option (Option Value) := do
  let z ← values.lookup .flagZ
  let n ← values.lookup .flagN
  let c ← values.lookup .flagC
  let v ← values.lookup .flagV
  return match condition.toNat with
    | 0 => some z
    | 1 => some (.not z)
    | 2 => some c
    | 3 => some (.not c)
    | 4 => some n
    | 5 => some (.not n)
    | 6 => some v
    | 7 => some (.not v)
    | 8 => some (.binary .and (.not z) c)
    | 9 => some (.binary .or (.not c) z)
    | 10 => some (.icmp .eq n v)
    | 11 => some (.icmp .ne n v)
    | 12 => some (.binary .and (.icmp .eq n v) (.not z))
    | 13 => some (.binary .or (.icmp .ne n v) z)
    | _ => none

end Avatar.Translator
