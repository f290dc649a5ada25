import Avatar.AvatarStub.Messages

/-! The blocking operations of `AvatarProtocol` (`avatar/interfaces/avatar_stub/avatar_protocol.py`):
    the command that each of them queues, the replies that it expects, and what it makes of the reply
    that it finds in its reference. -/

namespace Avatar
open Bytes

inductive Operation where
  | setRegister (register value : Int)
  | getRegister (register : Int)
  | readMemory (address size : Int)
  | writeMemory (address size value : Int)
  | readMemoryUntyped (address size : Int)
  | writeMemoryUntyped (address : Int) (data : List Byte)
  | executeCodelet (address : Int)
  | cont
deriving DecidableEq, Repr

inductive OperationError where
  | python (exception : PyException)
  /-- `AvatarRemoteError` -/
  | avatarRemoteError (error : FieldValue)

namespace Operation

/-- The command of an operation. The size assertions come before it is built. -/
def message : Operation → Except PyException AvatarMessage
  | setRegister register value =>
    createAvatarMessage "AVATAR_RPC_HTD_SET_REGISTER" [("register", .int register), ("value", .int value)]
  | getRegister register => createAvatarMessage "AVATAR_RPC_HTD_GET_REGISTER" [("register", .int register)]
  | readMemory address size =>
    createAvatarMessage "AVATAR_RPC_HTD_READ_MEMORY" [("address", .int address), ("size", .int size)]
  | writeMemory address size value =>
    createAvatarMessage "AVATAR_RPC_HTD_WRITE_MEMORY"
      [("address", .int address), ("size", .int size), ("value", .int value)]
  | readMemoryUntyped address size =>
    if size ≤ 255 then
      createAvatarMessage "AVATAR_RPC_HTD_READ_UNTYPED_MEMORY" [("address", .int address), ("size", .int size)]
    else .error .assertionError
  | writeMemoryUntyped address data =>
    if data.length ≤ 255 then
      createAvatarMessage "AVATAR_RPC_HTD_WRITE_UNTYPED_MEMORY" [("address", .int address), ("data", .bytes data)]
    else .error .assertionError
  | executeCodelet address => createAvatarMessage "AVATAR_RPC_HTD_CODELET_EXECUTE" [("address", .int address)]
  | cont => createAvatarMessage "AVATAR_RPC_HTD_RESUME_VM" []

def reply : Operation → String
  | setRegister .. | writeMemory .. | writeMemoryUntyped .. | cont => "AVATAR_RPC_DTH_REPLY_OK"
  | getRegister .. => "AVATAR_RPC_DTH_REPLY_GET_REGISTER"
  | readMemory .. => "AVATAR_RPC_DTH_REPLY_READ_MEMORY"
  | readMemoryUntyped .. => "AVATAR_RPC_DTH_REPLY_READ_UNTYPED_MEMORY"
  | executeCodelet .. => "AVATAR_RPC_DTH_REPLY_CODELET_EXECUTION_FINISHED"

def expectedReplies (op : Operation) : List String := [op.reply, "AVATAR_RPC_DTH_REPLY_ERROR"]

/-- `raise AvatarRemoteError(ref.get_value().error)` for an error reply. -/
def raiseRemoteError (received : AvatarMessage) : Except OperationError Unit :=
  if received.name = "AVATAR_RPC_DTH_REPLY_ERROR" then
    match received.attr "error" with
    | .ok error => .error (.avatarRemoteError error)
    | .error e => .error (.python e)
  else .ok ()

/-- `return ref.get_value().field` behind the check for an error reply. -/
def fieldOf (field : String) (received : AvatarMessage) : Except OperationError (Option FieldValue) := do
  raiseRemoteError received
  match received.attr field with
  | .ok v => .ok (some v)
  | .error e => .error (.python e)

/-- What an operation returns or raises when its reference holds `received`. -/
def result (received : AvatarMessage) : Operation → Except OperationError (Option FieldValue)
  -- The only operation that does not look at its reference.
  | setRegister .. => .ok none
  | getRegister .. | readMemory .. => fieldOf "value" received
  | readMemoryUntyped .. => fieldOf "data" received
  | writeMemory .. | writeMemoryUntyped .. | executeCodelet .. | cont => do
    raiseRemoteError received
    .ok none

end Operation

end Avatar
