import Mathlib.Logic.Function.Basic
import Avatar.Lib.StateExcept
import Avatar.Translator.Translators

/-! `InstructionTranslationUnitCache`, the one cache of the process, and the functions whose units it
    holds. A function is known by its address. Its blocks are numbered in the order in which they are
    created. -/

namespace Avatar.Translator

/-- `InstructionTranslationUnit` -/
structure TranslationUnit where
  pc : BitVec 64
  head : Nat
deriving DecidableEq, Repr

/-- `UnfinishedInstructionTranslationUnit` -/
structure Unfinished where
  function : Nat
  unit : TranslationUnit
  values : Values
  deleted : Bool
deriving DecidableEq, Repr

/-- A function, and the part of the cache that belongs to its address. -/
structure FunctionState where
  /-- Keys whose units belong to deleted functions that had this address. -/
  stale : List (BitVec 64)
  units : List TranslationUnit
  blocks : List BasicBlock
deriving DecidableEq, Repr

structure Cache where
  functions : Nat → FunctionState
  unfinished : List Unfinished

inductive Failure where
  /-- The process ends: an assertion fails, a null value is used, or a block that has been deleted. -/
  | abort
  /-- `DisassemblerException` -/
  | disassembler (pc : BitVec 64)
  /-- `ReverseTranslatorUknownOpcodeException` -/
  | unknownOpcode (inst : MCInst)
  /-- The string thrown for a condition code. -/
  | conditionCode
deriving DecidableEq, Repr

/-- What is done to the cache. An exception keeps the changes made before it. -/
abbrev CacheM := EStateM Failure Cache

/-- The values map of a new unit: its phi nodes. -/
def initialValues : Values := valueInformation.map fun v => (v.1, .phi v.1)

theorem lookup_initialValues : ∀ id ∈ valueInformation.map (·.1), initialValues.lookup id = some (.phi id) := by
  decide

def Cache.empty : Cache := ⟨fun _ => ⟨[], [], []⟩, []⟩

namespace CacheM

def getBlocks (function : Nat) : CacheM (List BasicBlock) := return ((← get).functions function).blocks

def modifyFunction (function : Nat) (f : FunctionState → FunctionState) : CacheM Unit :=
  modify fun c => { c with functions := Function.update c.functions function (f (c.functions function)) }

def getBlock (function head : Nat) : CacheM BasicBlock := do
  match (← getBlocks function)[head]? with
  | some block => return block
  | none => throw .abort

def setBlock (function head : Nat) (block : BasicBlock) : CacheM Unit :=
  modifyFunction function fun f => { f with blocks := f.blocks.set head block }

def append (function head : Nat) (instrs : List Instr) : CacheM Unit := do
  setBlock function head ((← getBlock function head).append instrs)

/-- `InstructionTranslationUnit::addIncoming` -/
def addIncoming (function : Nat) (unit : TranslationUnit) (values : Values) (predecessor : Nat) : CacheM Unit := do
  let block ← getBlock function unit.head
  unless values.all fun v => v.1 ∈ block.phis.map (·.1) do throw .abort
  setBlock function unit.head (block.addIncoming values predecessor)

def find (function : Nat) (pc : BitVec 64) : CacheM (Option TranslationUnit) := do
  let f := (← get).functions function
  if pc ∈ f.stale then throw .abort
  return f.units.find? (·.pc = pc)

def create (function : Nat) (pc : BitVec 64) : CacheM TranslationUnit := do
  let unit := ⟨pc, (← getBlocks function).length⟩
  modifyFunction function fun f => { f with
    units := f.units ++ [unit]
    blocks := f.blocks ++ [⟨valueInformation.map fun v => (v.1, []), []⟩] }
  modify fun c => { c with unfinished := c.unfinished ++ [⟨function, unit, initialValues, false⟩] }
  return unit

/-- `find_create` -/
def findCreate (function : Nat) (pc : BitVec 64) (predecessorValues : Values) (predecessor : Nat)
    (terminateLastBlock : Bool) : CacheM TranslationUnit := do
  let unit ← match ← find function pc with
    | some unit => pure unit
    | none => create function pc
  addIncoming function unit predecessorValues predecessor
  if terminateLastBlock then append function predecessor [.br unit.head]
  return unit

/-- Let a translator work on the block `head`; its result, and the values map afterwards. -/
def emit {α : Type} (function head : Nat) (values : Values) (m : EmitM α) : CacheM (α × Values) := do
  let block ← getBlock function head
  match m ⟨block.code, values⟩ with
  | some (a, e) =>
    setBlock function head { block with code := e.code }
    return (a, e.values)
  | none => throw .abort

def finish (function head : Nat) (values : Values) (inst : MCInst) : Successor → CacheM Unit
  | .fallThrough => discard <| findCreate function inst.nextPc values head true
  | .jump offset => do
    let next ← findCreate function (inst.branchPc offset) values head false
    append function head [.br next.head]
  | .branch offset condition => do
    let condFalse ← findCreate function inst.nextPc values head false
    let condTrue ← findCreate function (inst.branchPc offset) values head false
    match getCondition values (BitVec.ofInt 32 condition) with
    | some (some cond) => append function head [.condBr cond condTrue.head condFalse.head]
    | some none => throw .conditionCode
    | none => throw .abort

variable {α β : Type} {x : CacheM α} {f : α → CacheM β} {a : α} {c c' : Cache} {failure : Failure} {function : Nat}
  {pc : BitVec 64}

/-! ### Sequences -/

theorem discard_ok (h : x c = .ok a c') : (discard x : CacheM PUnit) c = .ok () c' := by
  simp only [discard, Functor.discard, Functor.mapConst, Function.comp_apply, EStateM.map, h]

theorem discard_error (h : x c = .error failure c') : (discard x : CacheM PUnit) c = .error failure c' := by
  simp only [discard, Functor.discard, Functor.mapConst, Function.comp_apply, EStateM.map, h]

/-! ### Operations -/

theorem getBlocks_eq : getBlocks function c = .ok (c.functions function).blocks c := rfl

theorem modifyFunction_eq (f : FunctionState → FunctionState) : modifyFunction function f c =
    .ok () { c with functions := Function.update c.functions function (f (c.functions function)) } := rfl

theorem find_eq (h : pc ∉ (c.functions function).stale) :
    find function pc c = .ok ((c.functions function).units.find? (·.pc = pc)) c := by
  have hget : (get : CacheM Cache) c = .ok c c := rfl
  rw [find, StateExcept.bind_ok hget]
  simp only [if_neg h]
  rfl

theorem create_eq : create function pc c = .ok ⟨pc, (c.functions function).blocks.length⟩
    { functions := Function.update c.functions function { c.functions function with
        units := (c.functions function).units ++ [⟨pc, (c.functions function).blocks.length⟩]
        blocks := (c.functions function).blocks ++ [⟨valueInformation.map fun v => (v.1, []), []⟩] }
      unfinished := c.unfinished ++
        [⟨function, ⟨pc, (c.functions function).blocks.length⟩, initialValues, false⟩] } := rfl

end CacheM

end Avatar.Translator
