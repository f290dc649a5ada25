import Avatar.Gdb.ProtocolLowlevel

/-! The client side of the GDB packet format (`avatar/interfaces/gdb/protocol.py`): a thread that collects the
    characters that arrive in a buffer and looks for a packet in it, and the requests for memory and registers. -/

namespace Avatar
open Bytes

namespace GdbProtocol

/-- What `parse_message` raises. `GdbChecksumError` is a `GdbMessageFormatError`. -/
inductive ParseError where
  | gdbChecksumError
  | python (exception : PyException)
deriving DecidableEq, Repr

def checksum (data : List Char) : Nat := data.foldl (fun x y => (x + y.toNat) % 256) 0

/-- The packet that `send_message` writes. Its sum has no initial value. -/
def sendMessage (data : List Char) : Except PyException (List Byte) :=
  match data with
  | [] => .error .typeError
  | c :: rest =>
    let checksum := rest.foldl (fun x y => (x + y.toNat) % 256) c.toNat
    encodeAscii ("$".toList ++ data ++ "#".toList ++ Numeral.hex2 checksum)

/-- `s.find(c, start)` -/
def find (s : List Char) (c : Char) (start : Nat) : Option Nat := ((s.drop start).idxOf? c).map (start + ·)

def parseMessage (raw_data : List Char) : Except ParseError (List Char) := do
  let parts := raw_data.splitOn '#'
  let msg_data ← match parts[0]? with
    | some part => .ok (part.drop 1)
    | none => .error (.python .indexError)
  let part ← match parts[1]? with
    | some part => .ok part
    | none => .error (.python .indexError)
  let received_checksum ← match int part 16 with
    | .ok v => .ok v
    | .error e => .error (.python e)
  if received_checksum ≠ checksum msg_data then .error .gdbChecksumError
  else .ok msg_data

/-- The buffer of `receive_thread`, what it has sent, and the queue of responses. -/
structure ReceiveThread where
  data : List Char
  sent : List Byte
  responses : List (List Char)
deriving DecidableEq, Repr

def ReceiveThread.init : ReceiveThread := ⟨[], [], []⟩

/-- The inner loop of `receive_thread`. Of the buffer only the end marker is kept after a packet. -/
def ReceiveThread.scan (s : ReceiveThread) : Except PyException ReceiveThread :=
  match find s.data '$' 0 with
  | none => .ok s
  | some start_idx =>
    match find s.data '#' start_idx with
    | none => .ok s
    | some end_idx =>
      if h : end_idx + 2 ≥ s.data.length then .ok s
      else
        match parseMessage (slice s.data start_idx (end_idx + 3)) with
        | .ok resp => scan
          { data := [s.data[end_idx]]
            sent := s.sent ++ [Ascii.byte '+']
            responses := if resp.isEmpty then s.responses else s.responses ++ [resp] }
        -- The handler of a format error writes to `streams_file`, which no instance has.
        | .error .gdbChecksumError => .error .attributeError
        | .error (.python e) => .error e
termination_by s.data.length
decreasing_by simp only [List.length_singleton]; omega

/-- `recv` returns one byte. What it raises ends the thread. -/
def ReceiveThread.recv (s : ReceiveThread) (byte : Byte) : Except PyException ReceiveThread := do
  let text ← decodeAscii [byte]
  scan { s with data := s.data ++ text }

def receiveThread (s : ReceiveThread) (bytes : List Byte) : Except PyException ReceiveThread :=
  bytes.foldlM ReceiveThread.recv s

/-! ### Reading memory -/

/-- The message that `read_memory` sends. -/
def readMemoryMessage (address length : Int) : List Char :=
  "m".toList ++ Numeral.hexInt address ++ ",".toList ++ Numeral.hexInt length

inductive ReadError where
  | gdbRemoteError (errno : Int)
  | gdbUnexpectedResponseError (resp : List Char)
  | python (exception : PyException)
deriving DecidableEq, Repr

/-- What `read_memory` makes of the response. -/
def readMemoryResult (length : Int) (resp : List Char) : Except ReadError (List Int) :=
  if resp.length = 3 ∧ resp[0]? = some 'E' then
    match int (resp.drop 1) 16 with
    | .ok errno => .error (.gdbRemoteError errno)
    | .error e => .error (.python e)
  else if resp.length ≠ 2 * length then .error (.gdbUnexpectedResponseError resp)
  else
    match hexPairs resp with
    | .ok data => .ok data
    | .error e => .error (.python e)

/-! ### Writing memory -/

/-- The message that `write_memory` sends for a list of characters. -/
def writeMemoryMessage (address : Int) (value : List Char) : List Char :=
  "M".toList ++ Numeral.hexInt address ++ ",".toList ++ Numeral.hex value.length ++ ":".toList ++
    value.flatMap fun x => Numeral.hex2 x.toNat

/-- What `write_memory` makes of the response. -/
def writeMemoryResult (resp : List Char) : Except ReadError Unit :=
  if resp.length = 3 ∧ resp[0]? = some 'E' then
    match int (resp.drop 1) 16 with
    | .ok errno => .error (.gdbRemoteError errno)
    | .error e => .error (.python e)
  else if resp = "OK".toList then .ok ()
  else .error (.gdbUnexpectedResponseError resp)

/-! ### Reading registers -/

def armRegisters : List (String × Int) :=
  [("r0", 0), ("r1", 1), ("r2", 2), ("r3", 3), ("r4", 4), ("r5", 5), ("r6", 6), ("r7", 7), ("r8", 8), ("r9", 9),
    ("r10", 10), ("r11", 11), ("r12", 12), ("sp", 13), ("lr", 14), ("pc", 15), ("cpsr", -1)]

def armRegistersInGResponse : List (Int × String) :=
  [(0, "r0"), (1, "r1"), (2, "r2"), (3, "r3"), (4, "r4"), (5, "r5"), (6, "r6"), (7, "r7"), (8, "r8"), (9, "r9"),
    (10, "r10"), (11, "r11"), (12, "r12"), (13, "sp"), (14, "lr"), (15, "pc"), (-1, "cpsr")]

def bankedRegisters : List (String × Int) :=
  [("sp_usr", 26), ("lr_usr", 27), ("sp_sys", 26), ("lr_sys", 27), ("r8_fiq", 28), ("r9_fiq", 29), ("r10_fiq", 30),
    ("r11_fiq", 31), ("r12_fiq", 32), ("sp_fiq", 33), ("lr_fiq", 34), ("sp_irq", 35), ("lr_irq", 36), ("sp_svc", 37),
    ("lr_svc", 38), ("sp_abt", 39), ("lr_abt", 40), ("sp_und", 41), ("lr_und", 42), ("cpsr_usr", 43), ("spsr_fiq", 44),
    ("spsr_irq", 45), ("spsr_svc", 46), ("spsr_abt", 47), ("spsr_und", 48)]

/-- `l[i]`; a negative position counts from the end. -/
def pyItem {α : Type} (l : List α) (i : Int) : Except PyException α :=
  match if 0 ≤ i then l[i.toNat]? else l.reverse[(-i - 1).toNat]? with
  | some a => .ok a
  | none => .error .indexError

/-- `ord(data[i])` -/
def ordAt (data : List Char) (i : Int) : Except PyException Nat := do
  let c ← pyItem data i
  return c.toNat

/-- `data_to_long` takes the characters for the bytes, not for digits. -/
def dataToLong (data : List Char) : Except PyException Nat := do
  let byte0 ← ordAt data 0
  let byte1 ← ordAt data 1
  let byte2 ← ordAt data 2
  let byte3 ← ordAt data 3
  return byte0 ||| byte1 <<< 8 ||| byte2 <<< 16 ||| byte3 <<< 24

/-- The number under which `get_single_register` asks for a register, if it knows it. -/
def registerIndex (register : String) : Option Int :=
  let reg_index := (armRegisters.lookup register).or (bankedRegisters.lookup register)
  reg_index.map fun i => if i = -1 then 25 else i

/-- The message that `get_single_register` sends. -/
def getSingleRegisterMessage (register : String) : Option (List Char) :=
  (registerIndex register).map fun i => "p".toList ++ Numeral.hex2 i.toNat

/-- The message that `get_registers` sends. -/
def getRegistersMessage : List Char := "g".toList

/-- A `map` object: what each `next` would give. Nothing has been computed when it is made. -/
structure MapObject (α : Type) where
  next : List (Except PyException α)

/-- `m[:stop]`: a `map` object is not subscriptable. -/
def MapObject.upTo {α : Type} (_m : MapObject α) (_stop : Nat) : Except PyException (List α) := .error .typeError

/-- `reversed(m)`: a `map` object is not reversible. -/
def MapObject.reversed {α : Type} (_m : MapObject α) : Except PyException (List α) := .error .typeError

/-- `zip(*[iter(l)] * 8)`: what is left over is dropped. -/
def groups₈ {α : Type} : List α → List (List α)
  | a :: b :: c :: d :: e :: f :: g :: h :: rest => [a, b, c, d, e, f, g, h] :: groups₈ rest
  | _ => []

/-- `le_converter` -/
def leConverter (x : List Char) : Except PyException Int := do
  let digits ← (MapObject.mk ((groups₂ x).map .ok)).reversed
  int digits.flatten 16

/-- What is computed of a response to become `_registers`. -/
def registerValues (resp : List Char) : Except PyException (List Int) := do
  let register_values ← (MapObject.mk ((groups₈ resp).map leConverter)).upTo 16
  let cpsr ← leConverter (resp.drop (resp.length - 8))
  return register_values ++ [cpsr]

/-- What `get_registers` makes of the response. Whatever is raised, it is the response that is blamed. -/
def getRegistersResult (resp : List Char) : Except ReadError (List (String × Int)) :=
  match registerValues resp with
  | .error _ => .error (.gdbUnexpectedResponseError resp)
  | .ok registers =>
    let named := armRegistersInGResponse.mapM fun (reg_idx, name) => do
      let value ← pyItem registers reg_idx
      return (name, value)
    named.mapError .python

end GdbProtocol

end Avatar
