import Avatar.Lib.Ssa

/-! What the binary translator (`binary_translator`) sees of the processor and of the disassembler: the
    registers and flags that get a value, and decoded instructions. The disassembler itself belongs to
    another program; of its output the translators rely on the layout of the operands, `WellFormed`. -/

namespace Avatar.Translator
open Bytes

/-- The registers of the disassembler, and the flags that the translator adds to them. -/
inductive Register where
  /-- The register number 0. -/
  | noRegister
  | r0
  | r1
  | r2
  | r3
  | r4
  | r5
  | r6
  | r7
  | r8
  | r9
  | r10
  | r11
  | r12
  | sp
  | lr
  | pc
  | cpsr
  | flagZ
  | flagN
  | flagC
  | flagV
  | other (number : Nat)
deriving DecidableEq, Repr

inductive Opcode where
  | tPUSH
  | tLDRpciASM
  | tLDRHi
  | tCMPr
  | tBcc
  | tADDi8
  | tMOVi8
  | tSTRHi
  | tLSLri
  | tORR
  | tBIC
  | tB
  | tCMPi8
  | tSTRi
  | tADDi3
  | tSUBi8
  | tLDRi
  | tADDrr
  | tAND
  | tLSRri
  | bx
  /-- An opcode that the translator does not mention. -/
  | other (number : Nat)
deriving DecidableEq, Repr

/-- `MCOperand` -/
inductive Operand where
  | reg (register : Register)
  | imm (value : Int)
deriving DecidableEq, Repr

/-- `ExtendedMCInst` -/
structure MCInst where
  opcode : Opcode
  operands : List Operand
  pc : BitVec 64
  size : BitVec 64
deriving DecidableEq, Repr

def MCInst.nextPc (inst : MCInst) : BitVec 64 := inst.pc + inst.size

def MCInst.branchPc (inst : MCInst) (offset : Int) : BitVec 64 := inst.pc + 4 + BitVec.ofInt 64 offset

/-- `ARMCC::AL` -/
def condAL : Int := 14

inductive DecodeStatus where
  | fail
  | softFail
  | success
deriving DecidableEq, Repr

/-- The callback that reads code memory: from an address and a number of bytes, the number of bytes that it
    returns and those that it leaves in the buffer. -/
abbrev CodeMemory := BitVec 64 → Nat → Nat × List Byte

/-- The outcome of the disassembler: the status, the opcode and its operands, and the size. -/
structure Decoded where
  status : DecodeStatus
  opcode : Opcode
  operands : List Operand
  size : BitVec 64
deriving DecidableEq, Repr

/-- The disassembler reads code memory at a program counter. -/
abbrev Disassembler := CodeMemory → BitVec 64 → Decoded

/-- `ProxyMemoryObject::readBytes`: whether it succeeded, and the buffer, whose bytes were zero before. -/
def readBytes (memory : CodeMemory) (address : BitVec 64) (size : Nat) : Bool × List Byte :=
  let (count, bytes) := memory address size
  (count == size, bytes.take size ++ List.replicate (size - bytes.length) 0)

/-! ### The layout of the operands -/

/-- The registers that a Thumb instruction can name in three bits. -/
def Register.isLow : Register → Bool
  | r0 | r1 | r2 | r3 | r4 | r5 | r6 | r7 => true
  | _ => false

namespace Operand

def IsLow : Operand → Prop
  | reg register => register.isLow = true
  | imm _ => False

def IsImm : Operand → Prop
  | reg _ => False
  | imm _ => True

/-- The predicate of an instruction that is always executed. -/
def always : List Operand := [.imm condAL, .reg .noRegister]

end Operand

/-- The operands as the disassembler lays them out, for each opcode that has a translator: destination,
    `CPSR` where the instruction sets flags, sources, and the predicate. -/
def WellFormed (opcode : Opcode) (operands : List Operand) : Prop :=
  match opcode with
  | .tPUSH => ∃ registers : List Register, registers ≠ [] ∧ (∀ r ∈ registers, r.isLow = true ∨ r = .lr) ∧
      operands = Operand.always ++ registers.map .reg
  | .tLDRpciASM => ∃ d i, operands = [d, i] ++ Operand.always ∧ d.IsLow ∧ i.IsImm
  | .tLDRHi | .tLDRi | .tSTRHi | .tSTRi =>
    ∃ d n i, operands = [d, n, i] ++ Operand.always ∧ d.IsLow ∧ n.IsLow ∧ i.IsImm
  | .tCMPr => ∃ n m, operands = [n, m] ++ Operand.always ∧ n.IsLow ∧ m.IsLow
  | .tCMPi8 => ∃ n i, operands = [n, i] ++ Operand.always ∧ n.IsLow ∧ i.IsImm
  | .tMOVi8 => ∃ d i, operands = [d, .reg .cpsr, i] ++ Operand.always ∧ d.IsLow ∧ i.IsImm
  | .tADDi8 | .tADDi3 | .tSUBi8 =>
    ∃ d n i, operands = [d, .reg .cpsr, n, i] ++ Operand.always ∧ d.IsLow ∧ n.IsLow ∧ i.IsImm
  | .tLSLri => ∃ d n i, operands = [d, .reg .cpsr, n, .imm i] ++ Operand.always ∧ d.IsLow ∧ n.IsLow ∧
      0 < i ∧ i < 32
  | .tLSRri => ∃ d n i, operands = [d, .reg .cpsr, n, .imm i] ++ Operand.always ∧ d.IsLow ∧ n.IsLow ∧
      0 ≤ i ∧ i < 32
  | .tORR | .tBIC | .tADDrr | .tAND =>
    ∃ d n m, operands = [d, .reg .cpsr, n, m] ++ Operand.always ∧ d.IsLow ∧ n.IsLow ∧ m.IsLow
  | .tB => ∃ i, operands = i :: Operand.always ∧ i.IsImm
  | .tBcc => ∃ i cond, operands = [i, .imm cond, .reg .cpsr] ∧ i.IsImm ∧ 0 ≤ cond ∧ cond < 14
  | .bx | .other _ => True

/-- The disassembler lays out the operands of what it decodes with success. -/
def Disassembler.Conforms (disassembler : Disassembler) : Prop :=
  ∀ memory pc, (disassembler memory pc).status = .success →
    WellFormed (disassembler memory pc).opcode (disassembler memory pc).operands

end Avatar.Translator
