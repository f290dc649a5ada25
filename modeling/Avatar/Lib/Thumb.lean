import Mathlib.Data.List.FinRange
import Avatar.Lib.Flags
import Avatar.Lib.WordMemory

/-! Thumb instructions as the architecture defines them: what a decoded instruction does to the registers, the flags
    and the memory of the processor, and the address of the next instruction. -/

namespace Thumb
open Bytes

/-- `R0` to `R12`, `SP` and `LR` -/
abbrev Register := Fin 15

def Register.sp : Register := 13

inductive Operand where
  | register (m : Register)
  | immediate (value : BitVec 32)
deriving DecidableEq, Repr

inductive LogicalOp where
  | and
  | orr
  | bic
deriving DecidableEq, Repr

/-- The instructions, all but the comparisons, the stores and the branches with their destination first -/
inductive Instr where
  | add (d n : Register) (x : Operand)
  | sub (d n : Register) (x : Operand)
  | cmp (n : Register) (x : Operand)
  | mov (d : Register) (value : BitVec 32)
  | logical (op : LogicalOp) (d n m : Register)
  /-- By 1 to 31 places -/
  | lsl (d m : Register) (places : Nat)
  /-- By 1 to 32 places -/
  | lsr (d m : Register) (places : Nat)
  | ldr (d n : Register) (offset : BitVec 32)
  | ldrh (d n : Register) (offset : BitVec 32)
  | str (d n : Register) (offset : BitVec 32)
  | strh (d n : Register) (offset : BitVec 32)
  /-- Relative to the program counter -/
  | ldrLiteral (d : Register) (offset : BitVec 32)
  | push (registers : List Register)
  | b (offset : BitVec 32)
  | bCond (cond : Condition) (offset : BitVec 32)
deriving DecidableEq, Repr

structure State where
  registers : Register → BitVec 32
  flags : Flags
  memory : WordMemory 32
  /-- The address of the next instruction -/
  pc : BitVec 32

namespace State
variable (s : State)

def operand : Operand → BitVec 32
  | .register m => s.registers m
  | .immediate value => value

def write (d : Register) (value : BitVec 32) : State :=
  { s with registers := Function.update s.registers d value }

def setFlags (flags : Flags) : State := { s with flags }

/-- The flags `Z` and `N` of a result -/
def setZN (result : BitVec 32) : State := s.setFlags { s.flags with z := result == 0, n := result.msb }

def setZNC (result : BitVec 32) (carry : Bool) : State :=
  s.setFlags { s.flags with z := result == 0, n := result.msb, c := carry }

def store (a : BitVec 32) (bytes : List Byte) : State := { s with memory := s.memory.store a bytes }

/-- The little-endian integer of `n` bytes -/
def load (a : BitVec 32) (n : Nat) : BitVec 32 := BitVec.ofNat 32 (ofLE (s.memory.load a n))

/-- The address that a load relative to the program counter reads -/
def literal (offset : BitVec 32) : BitVec 32 := ((s.pc + 4) &&& 0xFFFFFFFC) + offset

end State

def LogicalOp.apply (x y : BitVec 32) : LogicalOp → BitVec 32
  | and => x &&& y
  | orr => x ||| y
  | bic => x &&& ~~~y

/-- The registers of a list in ascending order -/
def ascending (registers : List Register) : List Register := (List.finRange 15).filter (· ∈ registers)

/-- The bytes of registers, one behind the other -/
def State.bytes (s : State) (registers : List Register) : List Byte :=
  registers.flatMap fun r => toLE 4 (s.registers r).toNat

namespace Instr

/-- What an instruction does, but for the program counter -/
def execute (s : State) : Instr → State
  | add d n x => (s.write d (s.registers n + s.operand x)).setFlags (Flags.ofAdd (s.registers n) (s.operand x))
  | sub d n x => (s.write d (s.registers n - s.operand x)).setFlags (Flags.ofSub (s.registers n) (s.operand x))
  | cmp n x => s.setFlags (Flags.ofSub (s.registers n) (s.operand x))
  | mov d value => (s.write d value).setZN value
  | logical op d n m =>
    let result := op.apply (s.registers n) (s.registers m)
    (s.write d result).setZN result
  | lsl d m places =>
    let result := s.registers m <<< places
    (s.write d result).setZNC result ((s.registers m).getLsbD (32 - places))
  | lsr d m places =>
    let result := s.registers m >>> places
    (s.write d result).setZNC result ((s.registers m).getLsbD (places - 1))
  | ldr d n offset => s.write d (s.load (s.registers n + offset) 4)
  | ldrh d n offset => s.write d (s.load (s.registers n + offset) 2)
  | str d n offset => s.store (s.registers n + offset) (toLE 4 (s.registers d).toNat)
  | strh d n offset => s.store (s.registers n + offset) (toLE 2 (s.registers d).toNat)
  | ldrLiteral d offset => s.write d (s.load (s.literal offset) 4)
  | push registers =>
    -- The lowest register is stored at the lowest address.
    let bottom := s.registers .sp - 4 * BitVec.ofNat 32 (ascending registers).length
    (s.store bottom (s.bytes (ascending registers))).write .sp bottom
  | b _ | bCond _ _ => s

/-- The address of the next instruction, for an instruction of `size` bytes -/
def next (s : State) (size : BitVec 32) : Instr → BitVec 32
  | b offset => s.pc + 4 + offset
  | bCond cond offset => if cond.holds s.flags then s.pc + 4 + offset else s.pc + size
  | _ => s.pc + size

/-- One instruction of `size` bytes -/
def step (s : State) (size : BitVec 32) (instr : Instr) : State :=
  { instr.execute s with pc := instr.next s size }

variable {s s' : State} {size : BitVec 32} {instr : Instr}

@[simp] theorem execute_pc : (instr.execute s).pc = s.pc := by cases instr <;> rfl

theorem step_eq_iff (hpc : s'.pc = instr.next s size) :
    instr.step s size = s' ↔ { s' with pc := s.pc } = instr.execute s := by
  constructor
  · rintro rfl
    exact congrArg (fun pc => { instr.execute s with pc }) execute_pc.symm
  · intro h
    rw [step, ← h, ← hpc]

end Instr

end Thumb
