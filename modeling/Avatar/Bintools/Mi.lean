import Avatar.Bintools.MiParser
import Avatar.Lib.Ascii

/-! The process of gdb behind its machine interface (`avatar/bintools/gdb/mi.py`): a thread reads what the process writes
    and queues the results, and `sync_cmd` waits for them. -/

namespace Avatar

/-- `GDB.dbg` -/
structure Debugger (σ : Type) where
  handleStreamMsg : MiStream → EStateM MiError σ Unit
  handleAsync : Async → EStateM MiError σ Unit

/-- What the thread works on: the state of the debugger, and `results_queue` -/
structure Mi (σ : Type) where
  dbg : σ
  results_queue : List MiResult

namespace Mi
open Bytes StateExcept
variable {σ : Type}

abbrev MiM (σ : Type) := EStateM MiError (Mi σ)

/-- A method of the debugger -/
def onDebugger (x : EStateM MiError σ Unit) : MiM σ Unit := fun s =>
  match x s.dbg with
  | .ok () dbg => .ok () { s with dbg := dbg }
  | .error e dbg => .error e { s with dbg := dbg }

def terminator : List Char := "(gdb) ".toList

/-- The line behind which the rest of what has been read is dropped -/
def bareDone : List Char := "^done".toList

variable (dbg : Debugger σ)

def dispatch : MiMessage → MiM σ Unit
  | .stream msg => onDebugger (dbg.handleStreamMsg msg)
  | .async msg => onDebugger (dbg.handleAsync msg)
  | .result msg => modify fun s => { s with results_queue := s.results_queue ++ [msg] }

def addMsg (msg : List Char) : MiM σ Unit := do
  let msg ← lift (MiParser.parse msg)
  dispatch dbg msg

/-- Nothing but a `MIProtocolException` is caught. -/
def logged (x : MiM σ Unit) : MiM σ Unit := tryCatch x fun e => if e = .miProtocolException then pure () else throw e

/-- The loop over the characters of `data`. It leaves the characters of an unfinished line. -/
def scan : List Char → List Char → MiM σ (List Char)
  | msg, [] => return msg
  | msg, c :: data =>
    if c = '\n' then
      if msg = terminator then scan [] data
      else if msg = bareDone then return []
      else do
        logged (addMsg dbg msg)
        scan [] data
    else scan (msg ++ [c]) data

/-- One round of `run`, which leaves the next value of `buffer` -/
def receive (buffer data : List Char) : MiM σ (List Char) := do
  let msg ← scan dbg [] (buffer ++ data)
  return if msg = terminator then [] else msg

/-- The line that `send_cmd` writes -/
def commandLine (token : Nat) (cmd : List (List Char)) : List Char := Numeral.dec token ++ [' '].intercalate cmd

/-- What `sync_cmd` makes of the next result in the queue. It has been taken from the queue, whatever is wrong with it. -/
def accept (t : Int) (klass : ResultClass) (msg : MiResult) : Except MiError (Option MiValue) :=
  if msg.token ≠ t then .error .miProtocolException
  else if msg.klass ≠ klass then .error .miProtocolException
  else .ok msg.results

/-- `read(self.gdb.stdout.fileno(), 1024).decode(encoding = 'ascii')` -/
def decode (bytes : List Byte) : Except MiError (List Char) :=
  match Ascii.decode bytes with
  | some data => .ok data
  | none => .error (.python .valueError)

/-- What the thread does with what it reads, up to the end of the output. It leaves `buffer` as long as there is more to
    read. -/
def run : List Char → List (List Byte) → MiM σ (Option (List Char))
  | buffer, [] => return some buffer
  | buffer, bytes :: reads => do
    let data ← lift (decode bytes)
    if data = [] then
      if buffer ≠ [] then throw .miProtocolException
      return none
    else
      let buffer ← receive dbg buffer data
      run buffer reads

end Mi

end Avatar
