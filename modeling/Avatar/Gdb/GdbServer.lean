import Mathlib.Data.List.AList
import Avatar.System
import Avatar.Gdb.ProtocolLowlevel
import Avatar.Targets.Avatarstub

/-! The GDB server (`avatar/interfaces/gdb/gdb_server.py`): what it does with a message that its receiver hands
    on, and with an event of the system. The debuggable behind it is a parameter, and its operations return. -/

namespace Avatar
open Bytes

/-- The state of a server: that of its debuggable, its own breakpoints, and the messages it has sent. -/
structure GdbServer (σ β : Type) where
  debuggable : σ
  breakpoints : AList fun _ : Int => β
  sent : List (List Char)

namespace GdbServer

/-- The value that `set_register` is called with: a number, or what `struct.unpack` returns. -/
inductive RegisterValue where
  | int (v : Int)
  | tuple (l : List Int)
deriving DecidableEq, Repr

/-- What the server uses of its debuggable, whose state has the type `σ` and whose breakpoints have the type `β`. -/
structure Debuggable (σ β : Type) where
  readTypedMemory (address size : Int) : StateM σ Int
  readUntypedMemory (address length : Int) : StateM σ (List Byte)
  writeTypedMemory (address size value : Int) : StateM σ Unit
  writeUntypedMemory (address : Int) (data : List Byte) : StateM σ Unit
  getRegister (register : String) : StateM σ Int
  getRegisterFromNr (nr : Int) : StateM σ Int
  setRegister (register : RegisterName) (value : RegisterValue) : StateM σ Unit
  setBreakpoint (address : Int) : StateM σ β
  /-- `delete` of a breakpoint -/
  delete (bkpt : β) : StateM σ Unit
  cont : StateM σ Unit
  stepi : StateM σ Unit

abbrev ServerM (σ β : Type) := EStateM PyException (GdbServer σ β)

section Operations
variable {σ β α : Type}

def debuggee (op : StateM σ α) : ServerM σ β α := fun s =>
  let (a, debuggable) := op s.debuggable
  .ok a { s with debuggable }

def raises (x : Except PyException α) : ServerM σ β α := fun s =>
  match x with
  | .ok a => .ok a s
  | .error e => .error e s

/-- `self._breakpoints[address]` -/
def breakpoint (address : Int) : ServerM σ β β := fun s =>
  match s.breakpoints.lookup address with
  | some bkpt => .ok bkpt s
  | none => .error .keyError s

/-- `self._low_level_protocol.send_message(message)` -/
def sendMessage (message : List Char) : ServerM σ β Unit := do
  let _ ← raises (GdbLowlevelProtocol.sendMessage message)
  modify fun s => { s with sent := s.sent ++ [message] }

end Operations

/-! ### Texts and bytes -/

/-- `l[i]` -/
def item {α : Type} (l : List α) (i : Nat) : Except PyException α :=
  match l[i]? with
  | some a => .ok a
  | none => .error .indexError

/-- `s.split(separator)[i]` -/
def field (s : List Char) (separator : Char) (i : Nat) : Except PyException (List Char) :=
  item (s.splitOn separator) i

/-- `int(s.split(separator)[i], base)` -/
def intField (s : List Char) (separator : Char) (i base : Nat) : Except PyException Int := do
  let part ← field s separator i
  int part base

/-- `"".join(["%02x" % x for x in data])` -/
def hexBytes (data : List Byte) : List Char := data.flatMap fun x => Numeral.hex2 x.toNat

/-- `zip(*[iter(l)] * 4)`: what is left over is dropped. -/
def groups₄ {α : Type} : List α → List (List α)
  | a :: b :: c :: d :: rest => [a, b, c, d] :: groups₄ rest
  | _ => []

/-- `bytes(l)` -/
def toBytes (l : List Int) : Except PyException (List Byte) :=
  if ∀ v ∈ l, 0 ≤ v ∧ v < 256 then .ok (l.map (BitVec.ofInt 8)) else .error .valueError

/-- `struct.pack` of one unsigned integer of `size` bytes, little-endian -/
def pack (size : Nat) (value : Int) : Except PyException (List Byte) :=
  if 0 ≤ value ∧ value < 256 ^ size then .ok (toLE size value.toNat) else .error .structError

def registers : List String :=
  ["r0", "r1", "r2", "r3", "r4", "r5", "r6", "r7", "r8", "r9", "r10", "r11", "r12", "sp", "lr", "pc", "cpsr"]

/-! ### The opcodes of the registers

They are the same over a debuggable whose operations may raise. What these raise leaves the handler; the state that they
have left stays. -/

/-- The registers of a debuggable, and the exceptions of the language among those that it raises. -/
structure RegisterAccess (ε σ : Type) where
  python : PyException → ε
  getRegister (register : String) : EStateM ε σ Int
  getRegisterFromNr (nr : Int) : EStateM ε σ Int
  setRegister (register : RegisterName) (value : RegisterValue) : EStateM ε σ Unit

namespace RegisterAccess
variable {ε σ β α : Type}

def debuggee (op : EStateM ε σ α) : EStateM ε (GdbServer σ β) α := fun s =>
  match op s.debuggable with
  | .ok a debuggable => .ok a { s with debuggable }
  | .error e debuggable => .error e { s with debuggable }

variable (access : RegisterAccess ε σ) (arguments : List Char)

def raises (x : Except PyException α) : EStateM ε (GdbServer σ β) α := fun s =>
  match x with
  | .ok a => .ok a s
  | .error e => .error (access.python e) s

def sendMessage (message : List Char) : EStateM ε (GdbServer σ β) Unit := do
  let _ ← access.raises (GdbLowlevelProtocol.sendMessage message)
  modify fun s => { s with sent := s.sent ++ [message] }

/-- `g` -/
def readRegisters : EStateM ε (GdbServer σ β) Unit := do
  let register_values ← registers.mapM fun x => debuggee (access.getRegister x)
  let data ← access.raises (register_values.mapM (pack 4))
  access.sendMessage (hexBytes data.flatten)

/-- `G`. Each value is a tuple of one number. -/
def writeRegisters : EStateM ε (GdbServer σ β) Unit := do
  let register_data ← access.raises (hexPairs arguments)
  let register_values ← access.raises ((groups₄ register_data).mapM fun x => do
    let data ← toBytes x
    .ok (RegisterValue.tuple [ofLE data]))
  (registers.zip register_values).forM fun (reg, val) => debuggee (access.setRegister (.str reg) val)
  access.sendMessage "OK".toList

/-- `p` -/
def readRegister : EStateM ε (GdbServer σ β) Unit := do
  let regnr ← access.raises (int arguments 16)
  let value ← debuggee (access.getRegisterFromNr regnr)
  let data ← access.raises (pack 4 value)
  access.sendMessage (hexBytes data)

/-- `P`. The value is written as a big-endian number. -/
def writeRegister : EStateM ε (GdbServer σ β) Unit := do
  let regnr ← access.raises (intField arguments '=' 0 16)
  let value_wrong_endianness ← access.raises (intField arguments '=' 1 16)
  let data ← access.raises (pack 4 value_wrong_endianness)
  debuggee (access.setRegister (.int regnr) (.int (ofLE data.reverse)))
  access.sendMessage "OK".toList

end RegisterAccess

section Returning
variable {σ β α : Type}

def returning (op : StateM σ α) : EStateM PyException σ α := fun s =>
  let (a, s) := op s
  .ok a s

/-- The registers of a debuggable whose operations return -/
@[simps]
def Debuggable.registerAccess (debuggable : Debuggable σ β) : RegisterAccess PyException σ where
  python := id
  getRegister register := returning (debuggable.getRegister register)
  getRegisterFromNr nr := returning (debuggable.getRegisterFromNr nr)
  setRegister register value := returning (debuggable.setRegister register value)

@[simp] theorem debuggee_returning (op : StateM σ α) :
    (RegisterAccess.debuggee (returning op) : ServerM σ β α) = debuggee op := rfl

@[simp] theorem raises_registerAccess (debuggable : Debuggable σ β) (x : Except PyException α) :
    (debuggable.registerAccess.raises x : ServerM σ β α) = raises x := by
  cases x <;> rfl

@[simp] theorem sendMessage_registerAccess (debuggable : Debuggable σ β) (message : List Char) :
    (debuggable.registerAccess.sendMessage message : ServerM σ β Unit) = sendMessage message := by
  rw [RegisterAccess.sendMessage, raises_registerAccess]
  rfl

end Returning

/-! ### The opcodes. The arguments are `msg[1:]`. -/

section Opcodes
variable {σ β : Type} (debuggable : Debuggable σ β) (arguments : List Char)

/-- `m`. The size is read in base ten. -/
def readMemory : ServerM σ β Unit := do
  let address ← raises (intField arguments ',' 0 16)
  let size ← raises (intField arguments ',' 1 10)
  if size ∈ [1, 2, 4] then do
    let value ← debuggee (debuggable.readTypedMemory address size)
    let data ← raises (pack size.toNat value)
    sendMessage (hexBytes data)
  else do
    let value ← debuggee (debuggable.readUntypedMemory address size)
    sendMessage (hexBytes value)

/-- `M` -/
def writeMemory : ServerM σ β Unit := do
  let address_size ← raises (field arguments ':' 0)
  let address ← raises (intField address_size ',' 0 16)
  let size ← raises (intField address_size ',' 1 16)
  let digits ← raises (field arguments ':' 1)
  let data ← raises (hexPairs digits >>= toBytes)
  if data.length = size then do
    if size ∈ [1, 2, 4] then debuggee (debuggable.writeTypedMemory address size (ofLE data))
    else debuggee (debuggable.writeUntypedMemory address data)
    sendMessage "OK".toList
  else throw .assertionError

/-- `g` -/
def readRegisters : ServerM σ β Unit := debuggable.registerAccess.readRegisters

/-- `G` -/
def writeRegisters : ServerM σ β Unit := debuggable.registerAccess.writeRegisters arguments

/-- `p` -/
def readRegister : ServerM σ β Unit := debuggable.registerAccess.readRegister arguments

/-- `P` -/
def writeRegister : ServerM σ β Unit := debuggable.registerAccess.writeRegister arguments

/-- `z` -/
def removeBreakpoint : ServerM σ β Unit := do
  let tipe ← raises (item arguments 0)
  let address ← raises (intField arguments ',' 1 16)
  let _kind ← raises (field arguments ',' 2)
  if (tipe.toNat : Int) - '0'.toNat ∈ [0, 1] then do
    let bkpt ← breakpoint address
    debuggee (debuggable.delete bkpt)
    modify fun s => { s with breakpoints := s.breakpoints.erase address }
    sendMessage "OK".toList
  else throw .assertionError

/-- `Z` -/
def insertBreakpoint : ServerM σ β Unit := do
  let tipe ← raises (item arguments 0)
  let address ← raises (intField arguments ',' 1 16)
  let _kind ← raises (field arguments ',' 2)
  if (tipe.toNat : Int) - '0'.toNat ∈ [0, 1] then do
    let bkpt ← debuggee (debuggable.setBreakpoint address)
    modify fun s => { s with breakpoints := s.breakpoints.insert address bkpt }
    sendMessage "OK".toList
  else throw .assertionError

end Opcodes

/-- `_message_received` -/
def messageReceived {σ β : Type} (debuggable : Debuggable σ β) : List Char → ServerM σ β Unit
  | [] => throw .indexError
  | 'm' :: arguments => readMemory debuggable arguments
  | 'M' :: arguments => writeMemory debuggable arguments
  | 'g' :: _ => readRegisters debuggable
  | 'G' :: arguments => writeRegisters debuggable arguments
  | 'p' :: arguments => readRegister debuggable arguments
  | 'P' :: arguments => writeRegister debuggable arguments
  | 'c' :: _ => debuggee debuggable.cont
  | 'z' :: arguments => removeBreakpoint debuggable arguments
  | 'Z' :: arguments => insertBreakpoint debuggable arguments
  | '?' :: _ => sendMessage "S05".toList
  | 's' :: _ => debuggee debuggable.stepi
  -- `v`, `q` and `H` are only logged in another way.
  | _ :: _ => sendMessage []

/-- `handle_event` -/
def handleEvent {σ β P : Type} (evt : Event P) : ServerM σ β Unit :=
  if .breakpoint ∈ evt.tags ∨ .endStepping ∈ evt.tags then sendMessage "S05".toList else pure ()

end GdbServer

end Avatar
