import Mathlib.Data.Int.Bitwise
import Mathlib.Data.List.AList
import Avatar.Lib.FloatDivision
import Avatar.System
import Avatar.Interfaces.S2eRemoteMemory

/-! The plugin that records how each address of the memory is accessed
    (`avatar/plugins/memory_range_identifier.py`). The record is kept in pages, which are created when they are first
    touched. What the plugin logs is left out. -/

namespace Avatar.MemoryRangeIdentifier
open StateExcept

/-- The kinds of access that are counted for each address. -/
inductive Mark where
  | read
  | write
  | execute
  | stack
  | io
deriving DecidableEq, Repr

structure Page where
  counts : Mark → List Nat
  /-- The byte last written to each address, or -1. -/
  data : List Int

/-- `self._pages` -/
abbrev Pages := AList fun _ : Int => Page

abbrev PluginM := EStateM PyException Pages

def Page.new (pageSize : Nat) : Page where
  counts _ := List.replicate pageSize 0
  data := List.replicate pageSize (-1)

def assert (p : Prop) [Decidable p] : PluginM Unit := if p then pure () else throw .assertionError

/-- `int(address / self._page_size)`. The quotient is a float of 53 bits, below `2 ** 1024`. -/
def pageNumber (pageSize : Nat) (address : Int) : Except PyException Int :=
  if pageSize = 0 then .error .zeroDivisionError
  else
    let quotient := FloatDivision.floatDiv 53 address.natAbs pageSize
    if quotient < 2 ^ 1024 then .ok (address.sign * quotient) else .error .overflowError

/-- `_get_page`: the page is known by its address. -/
def getPage (pageSize : Nat) (address : Int) : PluginM Int := do
  let number ← lift (pageNumber pageSize address)
  let pgAddress := number * pageSize
  if pgAddress ∉ (← get) then
    modify fun pages => pages.insert pgAddress (Page.new pageSize)
  return pgAddress

/-- `l[i]` -/
def item {α : Type} (l : List α) (i : Nat) : Except PyException α :=
  match l[i]? with
  | some a => .ok a
  | none => .error .indexError

/-- An assignment to `l[i]`, of a value that is computed from the one there -/
def update {α : Type} (l : List α) (i : Nat) (f : α → α) : Except PyException (List α) := do
  let a ← item l i
  return l.set i (f a)

def Page.increment (mark : Mark) (i : Nat) (page : Page) : Except PyException Page := do
  let counts ← update (page.counts mark) i (· + 1)
  return { page with counts := Function.update page.counts mark counts }

def Page.setData (i : Nat) (value : Int) (page : Page) : Except PyException Page := do
  let data ← update page.data i fun _ => value
  return { page with data }

/-- Change a page in place. -/
def modifyPage (pgAddress : Int) (f : Page → Except PyException Page) : PluginM Unit := fun pages =>
  match pages.lookup pgAddress with
  | none => .error .keyError pages
  | some page =>
    match f page with
    | .ok page => .ok () (pages.insert pgAddress page)
    | .error e => .error e pages

/-- The assertions of `_write_data`, `_read_cached_data` and `_mark_data` about an access. -/
def assertAccess (pageSize : Nat) (address size : Int) : PluginM Unit := do
  assert (size = 1 ∨ size = 2 ∨ size = 4 ∨ size = 8)
  let first ← lift (pageNumber pageSize address)
  let last ← lift (pageNumber pageSize (address + size - 1))
  assert (first = last)

def offset (pageSize : Nat) (address : Int) : Nat := (address % pageSize).toNat

/-- `_write_data` -/
def writeData (pageSize : Nat) (address size value : Int) : PluginM Unit := do
  assertAccess pageSize address size
  let page ← getPage pageSize address
  forM (List.range size.toNat) fun i =>
    modifyPage page (Page.setData (offset pageSize address + i) ((value >>> (8 * i)) % 256))

/-- The loop of `_read_cached_data`. It returns in the middle at a byte that has not been written. -/
def cachedValue (data : List Int) (offset value : Nat) : List Nat → Except PyException (Option Nat)
  | [] => .ok (some value)
  | i :: is => do
    let byte ← item data (offset + i)
    if byte < 0 then return none
    cachedValue data offset (value ||| byte.toNat <<< (8 * i)) is

/-- `_read_cached_data` -/
def readCachedData (pageSize : Nat) (address size : Int) : PluginM (Option Nat) := do
  assertAccess pageSize address size
  let pgAddress ← getPage pageSize address
  match (← get).lookup pgAddress with
  | none => throw .keyError
  | some page => MonadExcept.ofExcept (cachedValue page.data (offset pageSize address) 0 (List.range size.toNat))

/-- `_mark_data` -/
def markData (pageSize : Nat) (address size : Int) (mark : Mark) : PluginM Unit := do
  assertAccess pageSize address size
  let page ← getPage pageSize address
  forM (List.range size.toNat) fun i => modifyPage page (Page.increment mark (offset pageSize address + i))

/-- `_add_stack_pointer_value` -/
def addStackPointerValue (pageSize : Nat) (sp : Int) : PluginM Unit := markData pageSize sp 4 .stack

/-- The size of an instruction, by the bit of `cpsr` for the instruction set. -/
def instructionSize (cpsr : Int) : Int := if cpsr.testBit 5 then 2 else 4

/-- `_add_program_counter_value` -/
def addProgramCounterValue (pageSize : Nat) (pc cpsr : Int) : PluginM Unit :=
  markData pageSize pc (instructionSize cpsr) .execute

/-- `_add_memory_read_access`. A value that is zero is treated like no value. -/
def addMemoryReadAccess (pageSize : Nat) (address size : Int) (value : Option Int) : PluginM Unit := do
  markData pageSize address size .read
  match value with
  | none => return
  | some value =>
    if value ≠ 0 then
      match ← readCachedData pageSize address size with
      | none => return
      | some stored =>
        if stored ≠ value then
          markData pageSize address size .io
          writeData pageSize address size value

/-- `_add_memory_write_access` -/
def addMemoryWriteAccess (pageSize : Nat) (address size value : Int) : PluginM Unit := do
  markData pageSize address size .write
  writeData pageSize address size value

/-! ### Events -/

/-- The properties of the event that announces a memory access. None of them need be there. -/
structure Properties where
  address : Option Int
  size : Option Int
  value : Option Int
  cpu_state : Option Json

/-- A member of a dictionary that is asked for -/
def member {α : Type} : Option α → Except PyException α
  | some a => .ok a
  | none => .error .keyError

/-- `evt["properties"][key]` -/
def property {α : Type} (evt : Event Properties) (key : Properties → Option α) : Except PyException α := do
  let properties ← member evt.properties
  member (key properties)

/-- `int(evt["properties"]["cpu_state"][name], 16)` -/
def register (evt : Event Properties) (name : String) : Except PyException Int := do
  let cpu_state ← property evt Properties.cpu_state
  let value ← S2ERemoteMemoryInterface.getItem cpu_state name
  S2ERemoteMemoryInterface.hexInt value

section Events
variable (pageSize : Nat) (evt : Event Properties)

/-- The access of an event, if it announces one. The state register is read, although only the log needs it. -/
def addAccess : PluginM Bool := do
  if .requestWriteMemoryValue ∈ evt.tags then
    let _cpsr ← lift (register evt "cpsr")
    let address ← lift (property evt Properties.address)
    let size ← lift (property evt Properties.size)
    let value ← lift (property evt Properties.value)
    addMemoryWriteAccess pageSize address size value
    return true
  else if .requestReadMemoryValue ∈ evt.tags then
    let _cpsr ← lift (register evt "cpsr")
    let address ← lift (property evt Properties.address)
    let size ← lift (property evt Properties.size)
    addMemoryReadAccess pageSize address size none
    return true
  else return false

def addStackPointer : PluginM Unit := do
  let sp ← lift (register evt "r13")
  let _cpsr ← lift (register evt "cpsr")
  addStackPointerValue pageSize sp

def addProgramCounter : PluginM Unit := do
  let pc ← lift (register evt "pc")
  let cpsr ← lift (register evt "cpsr")
  addProgramCounterValue pageSize pc cpsr

/-- `_process_event` -/
def processEvent : PluginM Unit := do
  if evt.source = .emulator then
    let memory_access ← addAccess pageSize evt
    if memory_access then
      addStackPointer pageSize evt
      addProgramCounter pageSize evt

end Events

end Avatar.MemoryRangeIdentifier
