import Avatar.Lib.JsonText
import Avatar.Lib.StateExcept
import Avatar.Gdb.ProtocolLowlevel

/-! The interface that an emulator sends its memory requests to (`avatar/interfaces/s2e_remote_memory.py`). A request
    is a JSON object. The thread of the interface reads one byte at a time, and tries after each whether what it has
    is a JSON text. -/

namespace Avatar.S2ERemoteMemoryInterface
open Bytes StateExcept

/-- What a handler is called with -/
inductive Call where
  | read (address size : Int) (cpu_state : Json)
  | write (address size value : Int) (cpu_state : Json)
  | setCpuState (cpu_state : Json)
  | getCpuState
  | cont
  | getChecksum (address size : Int)

abbrev HandlerM (σ : Type) := EStateM PyException σ

/-- The handlers that have been set. What is behind them has a state of type `σ`. -/
structure Handlers (σ : Type) where
  read : Option (Int → Int → Json → HandlerM σ Int)
  write : Option (Int → Int → Int → Json → HandlerM σ Unit)
  setCpuState : Option (Json → HandlerM σ Unit)
  getCpuState : Option (HandlerM σ (List (Json.Str × Json)))
  cont : Option (HandlerM σ Unit)
  getChecksum : Option (Int → Int → HandlerM σ Int)

/-- A call that has been made, and whether it has returned. -/
structure Called where
  call : Call
  returned : Bool

/-- The buffer of the thread, the state behind the handlers, the values that have been decoded, the calls, and the
    texts that have been sent. -/
structure RunState (σ : Type) where
  buffer : List Char
  handled : σ
  decoded : List Json
  calls : List Called
  sent : List (List Char)

def RunState.init {σ : Type} (handled : σ) : RunState σ := ⟨[], handled, [], [], []⟩

abbrev RunM (σ : Type) := EStateM PyException (RunState σ)

/-! ### Members -/

/-- `v[key]` -/
def getItem (v : Json) (key : String) : Except PyException Json :=
  match v with
  | .obj members =>
    -- Of members with the same key the last one counts.
    match members.reverse.lookup (Json.units key) with
    | some v => .ok v
    | none => .error .keyError
  | _ => .error .typeError

/-- `int(v, 16)` -/
def hexInt : Json → Except PyException Int
  | .str u => int (u.map Char.ofNat) 16
  | _ => .error .typeError

/-- `int(request["params"][key], 16)` -/
def param (request : Json) (key : String) : Except PyException Int := do
  let params ← getItem request "params"
  let v ← getItem params key
  hexInt v

/-- `v == s` -/
def isStr (v : Json) (s : String) : Bool :=
  match v with
  | .str u => u = Json.units s
  | _ => false

def str (s : String) : Json := .str (Json.units s)

/-- `d[key] = v` -/
def setItem (members : List (Json.Str × Json)) (key : String) (v : Json) : List (Json.Str × Json) :=
  if Json.units key ∈ members.map Prod.fst then
    members.map fun m => if m.1 = Json.units key then (m.1, v) else m
  else members ++ [(Json.units key, v)]

/-- `"0x%x" % value` -/
def hexText (value : Int) : Json := .str (('0' :: 'x' :: Numeral.hexInt value).map Char.toNat)

/-- `"0x%08x" % value`. A sign takes one of the eight places. -/
def hexText8 : Int → Json
  | .ofNat n => .str (('0' :: 'x' :: (Numeral.hex n).leftpad 8 '0').map Char.toNat)
  | .negSucc n => .str (('0' :: 'x' :: '-' :: (Numeral.hex (n + 1)).leftpad 7 '0').map Char.toNat)

/-! ### Requests -/

section Requests
variable {σ α : Type}

/-- `_handle_*`: the handler must have been set. -/
def callHandler (call : Call) (handler : Option (HandlerM σ α)) : RunM σ α := fun s =>
  match handler with
  | none => .error .assertionError s
  | some handler =>
    match handler s.handled with
    | .ok a handled => .ok a { s with handled, calls := s.calls ++ [⟨call, true⟩] }
    | .error e handled => .error e { s with handled, calls := s.calls ++ [⟨call, false⟩] }

/-- A reply is a JSON text and a newline. -/
def sendReply (reply : List (Json.Str × Json)) : RunM σ Unit :=
  modify fun s => { s with sent := s.sent ++ [(Json.obj reply).dumps ++ ['\n']] }

variable (handlers : Handlers σ)

/-- What is done with a request that has a member `cmd`. -/
def handle (request : Json) : RunM σ Unit := do
  let cmd ← lift (getItem request "cmd")
  if isStr cmd "read" then do
    let address ← lift (param request "address")
    let size ← lift (param request "size")
    let cpu_state ← lift (getItem request "cpu_state")
    let value ← callHandler (.read address size cpu_state) (handlers.read.map fun read => read address size cpu_state)
    sendReply [(Json.units "reply", str "read"), (Json.units "value", hexText value)]
  else if isStr cmd "write" then do
    let address ← lift (param request "address")
    let size ← lift (param request "size")
    let value ← lift (param request "value")
    let cpu_state ← lift (getItem request "cpu_state")
    callHandler (.write address size value cpu_state) (handlers.write.map fun write => write address size value cpu_state)
  else if isStr cmd "set_cpu_state" then do
    let cpu_state ← lift (getItem request "cpu_state")
    callHandler (.setCpuState cpu_state) (handlers.setCpuState.map fun setCpuState => setCpuState cpu_state)
    sendReply [(Json.units "reply", str "done")]
  else if isStr cmd "get_cpu_state" then do
    let ret ← callHandler .getCpuState handlers.getCpuState
    sendReply (setItem ret "reply" (str "get_cpu_state"))
  else if isStr cmd "continue" then do
    callHandler .cont handlers.cont
    sendReply [(Json.units "reply", str "done")]
  else if isStr cmd "write_buffer" then do
    let address ← lift (getItem request "address")
    let _ ← lift (hexInt address)
    let _ ← lift (getItem request "file")
    -- There is no method `_handle_write_buffer`.
    throw .attributeError
  else if isStr cmd "get_checksum" then do
    let address ← lift (param request "address")
    let size ← lift (param request "size")
    let ret ← callHandler (.getChecksum address size) (handlers.getChecksum.map fun getChecksum => getChecksum address size)
    sendReply [(Json.units "reply", str "done"), (Json.units "value", hexText8 ret)]
  else
    -- An unknown command is logged.
    return

/-- A byte is received. What `handle` raises is logged; a byte that is not ASCII ends the thread. -/
def RunState.next (s : RunState σ) (byte : Byte) : Except PyException (RunState σ) := do
  let c ← decodeAscii [byte]
  let buffer := s.buffer ++ c
  match Json.loads buffer with
  | none => .ok { s with buffer }
  | some request =>
    let s := { s with buffer := [], decoded := s.decoded ++ [request] }
    match getItem request "cmd" with
    -- A text without a member `cmd` is forgotten.
    | .error _ => .ok s
    | .ok _ => .ok (final (handle handlers request s))

/-- `_run` on the bytes that are received -/
def run (handled : σ) (bytes : List Byte) : Except PyException (RunState σ) :=
  bytes.foldlM (RunState.next handlers) (.init handled)

end Requests

end Avatar.S2ERemoteMemoryInterface
