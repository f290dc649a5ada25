import Avatar.Lib.Stuffing
import Avatar.Util.Checksum
import Avatar.AvatarStub.Messages

/-! The framing of the stub link (`avatar/interfaces/avatar_stub/avatar_protocol_lowlevel.py`).

    The receiver thread reads one byte at a time. Between two reads its state is the input buffer and,
    inside an escape sequence, the escape byte whose successor it waits for. -/

namespace Avatar
open Bytes Stuffing

namespace AvatarLowlevelProtocol

/-! ### Sending -/

/-- `escaped_message` and `escaped_crc`: two replacements one after the other. -/
def escape (message : List Byte) : List Byte :=
  replaceAll 0x55 [0xAA, 0x01] (replaceAll 0xAA [0xAA, 0x02] message)

/-- The frame that `send_message` writes for a serialized message. -/
def rawMessage (serialized_message : List Byte) : List Byte :=
  escape serialized_message ++ escape [crc8 serialized_message] ++ [0x55]

def sendMessage (avatar_message : AvatarMessage) : Except PyException (List Byte) := do
  let serialized_message ← avatar_message.serialize
  .ok (rawMessage serialized_message)

/-! ### Receiving -/

/-- The receiver between two calls of `recv`: the input buffer, and the byte that the first `recv` of
    an iteration returned when the second one waits. -/
structure RunState where
  input_buffer : List Byte
  next_byte : Option Byte
deriving DecidableEq, Repr

def RunState.init : RunState := ⟨[], none⟩

/-- `recv` returns `byte`. The result holds the buffer that is handed to `parse_message`, if it is. -/
def RunState.recv (s : RunState) (byte : Byte) : RunState × Option (List Byte) :=
  match s.next_byte with
  | none =>
    if byte = 0x55 then (⟨[], none⟩, some s.input_buffer)
    else if byte = 0xAA then (⟨s.input_buffer, some byte⟩, none)
    else (⟨s.input_buffer ++ [byte], none⟩, none)
  | some next_byte =>
    -- Any other second byte is dropped, and the escape byte itself is kept.
    let next_byte := if byte = 0x01 then 0x55 else if byte = 0x02 then 0xAA else next_byte
    (⟨s.input_buffer ++ [next_byte], none⟩, none)

/-- `run` on the bytes that arrive, and its calls of `parse_message` in order. -/
def run : RunState → List Byte → RunState × List (List Byte)
  | s, [] => (s, [])
  | s, byte :: rest =>
    let r := s.recv byte
    let t := run r.1 rest
    (t.1, r.2.toList ++ t.2)

/-- The comparison of `parse_message`: the last byte is the CRC of the bytes before it. -/
def crcMatches (data : List Byte) : Bool := data.getLast? == some (crc8 data.dropLast)

/-- The message that `parse_message` hands to the handler, if any. What the parser raises is logged. -/
def parseMessage (data : List Byte) : Option AvatarMessage :=
  if data.isEmpty then none
  else if !crcMatches data then none
  else
    match parseAvatarMessage data with
    | .ok message => some message
    | .error _ => none

/-! ### What ends the receiver thread -/

/-- What a handler of messages raises: something derived from `Exception`, or something else. -/
inductive Raised where
  | exception
  | other
deriving DecidableEq, Repr

def raised {α : Type} (x : Except PyException α) : Except Raised α := x.mapError fun _ => .exception

/-- `except Exception` around `x`, with a handler that only logs -/
def exceptException : Except Raised Unit → Except Raised Unit
  | .error .other => .error .other
  | _ => .ok ()

/-- `parse_message` with what it raises into `run`. The warning about a CRC reads the first byte. -/
def parseMessageWith (handler : AvatarMessage → Except Raised Unit) (data : List Byte) : Except Raised Unit :=
  if data.isEmpty then .ok ()
  else do
    let message_crc ← raised (index data (data.length - 1))
    if message_crc ≠ crc8 data.dropLast then
      let _ ← raised (index data 0)
      .ok ()
    else exceptException (raised (parseAvatarMessage data) >>= handler)

/-- `run` with what its calls of `parse_message` raise. -/
def runWith (handler : AvatarMessage → Except Raised Unit) : RunState → List Byte → Except Raised RunState
  | s, [] => .ok s
  | s, byte :: rest => do
    let r := s.recv byte
    r.2.forM (parseMessageWith handler)
    runWith handler r.1 rest

end AvatarLowlevelProtocol

end Avatar
