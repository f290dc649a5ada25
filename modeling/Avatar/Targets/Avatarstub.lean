import Mathlib.Data.List.AList
import Avatar.AvatarStub.Operations
import Avatar.Debuggable
import Avatar.Lib.Numeral

/-! The target behind the stub link (`avatar/targets/avatarstub_target.py`), seen by one thread that
    nobody else disturbs. The stub itself is a parameter: it gets the serialized command and replies. -/

namespace Avatar
open Bytes

/-- `ARM_REGISTER_NAMES` -/
def armRegisterNames : List (String × Int) :=
  [("r0", 0), ("r1", 1), ("r2", 2), ("r3", 3), ("r4", 4), ("r5", 5), ("r6", 6), ("r7", 7), ("r8", 8), ("r9", 9),
   ("r10", 10), ("r11", 11), ("r12", 12), ("r13", 13), ("sp", 13), ("r14", 14), ("lr", 14), ("r15", 15), ("pc", 15),
   ("cpsr", 16)]

/-- `name.lower()`, where only ASCII names matter -/
def lower (name : String) : String := String.ofList (name.toList.map Char.toLower)

inductive RegisterName where
  | str (name : String)
  | int (number : Int)
deriving DecidableEq, Repr

def RegisterName.number : RegisterName → Except PyException Int
  | str name =>
    match armRegisterNames.lookup (lower name) with
    | some number => .ok number
    | none => .error .keyError
  | int number => .ok number

/-- The stub: the reply to a serialized command, and its next state. -/
abbrev Stub (σ : Type) := List Byte → σ → AvatarMessage × σ

/-- The state of the stub, and the commands that have been sent to it. -/
structure Link (σ : Type) where
  stub : σ
  sent : List AvatarMessage

/-- A call on the target: it blocks forever (`none`), raises or returns. -/
abbrev TargetM (σ : Type) := ExceptT OperationError (StateT (Link σ) Option)

/-- A blocking operation. The caller is never woken when the command cannot be serialized (the send
    thread ends) or when the reply is not an expected one (the send thread only logs it). -/
def AvatarProtocol.call {σ : Type} (stub : Stub σ) (op : Operation) : TargetM σ (Option FieldValue) := fun link =>
  match op.message with
  | .error e => some (.error (.python e), link)
  | .ok message =>
    match message.serialize with
    | .error _ => none
    | .ok body =>
      let (received, state) := stub body link.stub
      if received.name ∈ op.expectedReplies then
        some (op.result received, ⟨state, link.sent ++ [message]⟩)
      else none

inductive InstructionSet where
  | arm
  | thumb
deriving DecidableEq, Repr

/-- `_breakpoints`. The newest entry comes first. -/
abbrev Breakpoints := AList fun _ : Int => InstructionSet

namespace AvatarstubTarget
variable {σ : Type} (stub : Stub σ)

def readTypedMemory (address size : Int) : TargetM σ (Option FieldValue) :=
  AvatarProtocol.call stub (.readMemory address size)

def readUntypedMemory (address length : Int) : TargetM σ (Option FieldValue) :=
  AvatarProtocol.call stub (.readMemoryUntyped address length)

/-- An element of the list that `bytes` gets -/
def byteOf : Option FieldValue → Except PyException Byte
  | some (.int v) => if 0 ≤ v ∧ v < 256 then .ok (BitVec.ofInt 8 v) else .error .valueError
  | _ => .error .typeError

/-- `Debuggable.read_untyped_memory` of the target, which the class overrides. -/
def debuggableReadUntypedMemory (address : Int) (length : Nat) : TargetM σ (List Byte) := do
  let data ← Debuggable.readUntypedMemory (readTypedMemory stub) address length
  match data.mapM byteOf with
  | .ok bytes => pure bytes
  | .error e => throw (.python e)

def writeTypedMemory (address size value : Int) : TargetM σ Unit := do
  let _ ← AvatarProtocol.call stub (.writeMemory address size value)

/-- The loop of `write_untyped_memory`. Neither the address nor the slice uses `chunk_address`. -/
def writeUntypedMemory.loop (address : Nat) (data : List Byte) (chunk_address : Nat) (remaining_size : Int) :
    TargetM σ Unit :=
  if 0 < remaining_size then do
    let _ ← AvatarProtocol.call stub (.writeMemoryUntyped address (slice data address (address + 255)))
    writeUntypedMemory.loop address data (chunk_address + 255) (remaining_size - 255)
  else pure ()
termination_by remaining_size.toNat

def writeUntypedMemory (address : Nat) (data : List Byte) : TargetM σ Unit :=
  writeUntypedMemory.loop stub address data address data.length

def getRegister (name : RegisterName) : TargetM σ (Option FieldValue) :=
  match name.number with
  | .ok number => AvatarProtocol.call stub (.getRegister number)
  | .error e => throw (.python e)

def setRegister (name : RegisterName) (value : Int) : TargetM σ Unit :=
  match name.number with
  | .ok number => do
    let _ ← AvatarProtocol.call stub (.setRegister number value)
  | .error e => throw (.python e)

def executeCodelet (address : Int) : TargetM σ Unit := do
  let _ ← AvatarProtocol.call stub (.executeCodelet address)

def installCodelet (address : Nat) (codelet : List Byte) : TargetM σ Unit :=
  writeUntypedMemory stub address codelet

/-! ### Breakpoints -/

def setBreakpoint (breakpoints : Breakpoints) (address : Int) (thumb : Bool) : Except String Breakpoints :=
  if address ∈ breakpoints then
    .error ("Breakpoint at 0x" ++ String.ofList (Numeral.hexInt address) ++ " already set, not setting a new one")
  else .ok (breakpoints.insert address (if thumb then .thumb else .arm))

/-- `delete` of a breakpoint calls it, after it has unregistered the breakpoint as a listener. -/
def clearBreakpoint (breakpoints : Breakpoints) (address : Int) : Except PyException Breakpoints :=
  if address ∈ breakpoints then .ok (breakpoints.erase address) else .error .keyError

/-- `bkpt_address == pc` -/
def isPc (bkpt_address : Int) : Option FieldValue → Bool
  | some (.int pc) => bkpt_address == pc
  | _ => false

/-- The body of the loop of `cont`. -/
def cont.body (pc : Option FieldValue) (bkpt_address : Int) (bkpt_data : InstructionSet) : TargetM σ Unit :=
  if isPc bkpt_address pc then pure ()
  else match bkpt_data with
    | .arm => writeTypedMemory stub bkpt_address 4 0xe1200071
    | .thumb => writeTypedMemory stub bkpt_address 2 0xbe01

/-- The loop over a list of items. -/
def cont.loop (pc : Option FieldValue) : List (Sigma fun _ : Int => InstructionSet) → TargetM σ Unit
  | [] => pure ()
  | ⟨bkpt_address, bkpt_data⟩ :: rest => do
    cont.body stub pc bkpt_address bkpt_data
    cont.loop pc rest

/-- The items of the dictionary come in the order in which they were inserted. -/
def cont (breakpoints : Breakpoints) : TargetM σ Unit := do
  let pc ← getRegister stub (.str "pc")
  cont.loop stub pc breakpoints.entries.reverse
  let _ ← AvatarProtocol.call stub .cont

/-- The operation that `_handle_asynchronous_message` calls: for a state message, `self.get_register("pc")`. -/
def handleAsynchronousMessage (msg : AvatarMessage) : Option Operation :=
  if msg.name = "AVATAR_RPC_DTH_STATE" then
    match (RegisterName.str "pc").number with
    | .ok number => some (.getRegister number)
    | .error _ => none
  else none

end AvatarstubTarget

end Avatar
