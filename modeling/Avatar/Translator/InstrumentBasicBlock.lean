import Avatar.Lib.InstructionList
import Avatar.Translator.InstrumentMemoryAccessPass

/-! `InstrumentMemoryAccessPass::runOnBasicBlock`, instruction by instruction: the iterator, the casts and the call that
    come before it, and the replacement of the access. A new instruction gets the next identity, and one that replaces
    another has its uses, so it gets its identity. -/

namespace Avatar.Translator.InstrumentMemoryAccessPass
open Ir (Op Inst Cursor Ty)

/-- The values that the pass is constructed with. -/
inductive Handler where
  | readHandler
  | writeHandler
deriving DecidableEq, Repr

variable {τ : Type}

/-- The iterator, and the identity of the next new instruction -/
structure Rewriting (τ : Type) where
  itr : Cursor (Inst Handler τ)
  supply : Nat

/-- There is no result when an assertion fails. -/
abbrev PassM (τ : Type) := StateT (Rewriting τ) Option

/-- `getMetadata("translated_memory_access")` -/
def isTranslated (inst : Inst Handler τ) : Bool := "translated_memory_access" ∈ inst.metadata

/-- The size of the integer that a pointer points to -/
def accessSize (address : Ir.Operand) : Option (BitVec 32) :=
  match address.ty with
  | .ptr (.int 8) => some 1
  | .ptr (.int 16) => some 2
  | .ptr (.int 32) => some 4
  | _ => none

def int8Ptr : Ty := .ptr (.int 8)

def int32 (v : BitVec 32) : Ir.Operand := .const (.int 32) (.int 32 v)

/-- A new instruction before the iterator -/
def create (ty : Ty) (op : Op Handler τ) : PassM τ Ir.Operand := do
  let s ← get
  set (⟨s.itr.insert ⟨s.supply, ty, op, []⟩, s.supply + 1⟩ : Rewriting τ)
  return .result ty s.supply

/-- `ReplaceInstWithInst` of the instruction at the iterator -/
def replaceInstWithInst (inst : Inst Handler τ) (ty : Ty) (op : Op Handler τ) : PassM τ Unit :=
  modify fun s => { s with itr := s.itr.replace ⟨inst.id, ty, op, []⟩ }

/-- The body of the loop, for the instruction at the iterator -/
def runOnInstruction (inst : Inst Handler τ) : PassM τ Unit :=
  if isTranslated inst then
    match inst.op with
    | .load address => do
      let size ← StateT.lift (accessSize address)
      let castAddress ← create int8Ptr (.pointerCast address)
      let value ← create (.int 32) (.call .readHandler [castAddress, int32 size])
      replaceInstWithInst inst inst.ty (.integerCast value)
    | .store value address => do
      let size ← StateT.lift (accessSize address)
      let castAddress ← create int8Ptr (.pointerCast address)
      let castValue ← create (.int 32) (.integerCast value)
      replaceInstWithInst inst .void (.call .writeHandler [castAddress, int32 size, castValue])
    | _ => return ()
  else return ()

/-- The loop, for at most as many rounds -/
def loop : Nat → PassM τ Unit
  | 0 => failure
  | rounds + 1 => do
    match (← get).itr.after with
    | [] => return ()
    | inst :: _ =>
      runOnInstruction inst
      modify fun s => { s with itr := s.itr.next }
      loop rounds

/-- The block after the pass, and the next identity. The iterator moves on in each round, and no instruction comes
    behind it. -/
def runOnBasicBlock (bb : List (Inst Handler τ)) (supply : Nat) : Option (List (Inst Handler τ) × Nat) :=
  (loop (bb.length + 1) ⟨⟨[], bb⟩, supply⟩).map fun (_, s) => (s.itr.toList, s.supply)

/-- `instrumentMemoryAccess` of the translator, for the blocks of its functions -/
def instrumentMemoryAccess : List (List (Inst Handler τ)) → Nat → Option (List (List (Inst Handler τ)) × Nat)
  | [], supply => some ([], supply)
  | bb :: blocks, supply => do
    let (bb, supply) ← runOnBasicBlock bb supply
    let (blocks, supply) ← instrumentMemoryAccess blocks supply
    return (bb :: blocks, supply)

end Avatar.Translator.InstrumentMemoryAccessPass
