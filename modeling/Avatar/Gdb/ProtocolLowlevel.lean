import Avatar.Lib.Ascii
import Avatar.Lib.Numeral
import Avatar.AvatarStub.Messages

/-! The server side of the GDB packet format (`avatar/interfaces/gdb/protocol_lowlevel.py`): a state machine that
    takes the bytes of each `recv` one by one. -/

namespace Avatar
open Bytes

/-- `bytes(s, encoding = 'ascii')`; a `UnicodeEncodeError` is a `ValueError` -/
def encodeAscii (s : List Char) : Except PyException (List Byte) :=
  match Ascii.encode s with
  | some bytes => .ok bytes
  | none => .error .valueError

/-- `data.decode('ascii')`; a `UnicodeDecodeError` is a `ValueError` -/
def decodeAscii (data : List Byte) : Except PyException (List Char) :=
  match Ascii.decode data with
  | some s => .ok s
  | none => .error .valueError

/-- `int(s, base)` -/
def int (s : List Char) (base : Nat) : Except PyException Int :=
  match Numeral.parse base s with
  | some v => .ok v
  | none => .error .valueError

/-- `zip(*[iter(l)] * 2)`: what is left over is dropped. -/
def groups₂ {α : Type} : List α → List (List α)
  | a :: b :: rest => [a, b] :: groups₂ rest
  | _ => []

/-- `int("".join(x), 16)` for every two characters -/
def hexPairs (s : List Char) : Except PyException (List Int) := (groups₂ s).mapM fun x => int x 16

namespace GdbLowlevelProtocol

def startOfMessageMarker : Byte := Ascii.byte '$'

def endOfMessageMarker : Byte := Ascii.byte '#'

def hexCharacters : List Byte := "0123456789ABCDEFabcdef".toList.map Ascii.byte

inductive State where
  | idle
  | inMessage
  | inChecksum1
  | inChecksum2
deriving DecidableEq, Repr

/-- The variables of `run`, what it has sent, and the messages that the handler has been called with. -/
structure RunState where
  state : State
  message : List Byte
  received_checksum : Nat
  sent : List Byte
  received : List (List Char)
deriving DecidableEq, Repr

def RunState.init : RunState := ⟨.idle, [], 0, [], []⟩

def checksum (message : List Byte) : Nat := message.foldl (fun r x => (r + x.toNat) &&& 0xFF) 0

/-- The body of the loop over the bytes of a chunk. The handler returns. -/
def RunState.next (s : RunState) (next_byte : Byte) : Except PyException RunState :=
  if next_byte = startOfMessageMarker then .ok { s with state := .inMessage, message := [] }
  else match s.state with
    | .inMessage =>
      if next_byte = endOfMessageMarker then .ok { s with state := .inChecksum1 }
      else .ok { s with message := s.message ++ [next_byte] }
    | .inChecksum1 =>
      if next_byte ∈ hexCharacters then do
        let digit ← int [Ascii.char next_byte] 16
        .ok { s with received_checksum := (digit.toNat <<< 4) &&& 0xF0, state := .inChecksum2 }
      else .error .assertionError
    | .inChecksum2 =>
      if next_byte ∈ hexCharacters then do
        let digit ← int [Ascii.char next_byte] 16
        let received_checksum := s.received_checksum ||| (digit.toNat &&& 0x0F)
        let s := { s with received_checksum, state := .idle }
        if checksum s.message = received_checksum then
          let message ← decodeAscii s.message
          .ok { s with sent := s.sent ++ [Ascii.byte '+'], received := s.received ++ [message] }
        else .ok { s with sent := s.sent ++ [Ascii.byte '-'] }
      else .error .assertionError
    | .idle => .ok s

/-- `run` on the chunks that `recv` returns. What it raises ends the thread. -/
def run (s : RunState) (chunks : List (List Byte)) : Except PyException RunState :=
  chunks.foldlM (fun s data => data.foldlM RunState.next s) s

/-- The packet that `send_message` writes. -/
def sendMessage (message : List Char) : Except PyException (List Byte) := do
  let raw_message ← encodeAscii message
  let checksum ← encodeAscii ('#' :: Numeral.hex2 (checksum raw_message))
  .ok ([startOfMessageMarker] ++ raw_message ++ checksum)

end GdbLowlevelProtocol

end Avatar
