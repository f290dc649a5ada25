import Avatar.Bintools.GdbDebugger
import Avatar.Lib.StateExcept

/-! The parser for the records of gdb's machine interface (`avatar/bintools/gdb/parse_stream.py`,
    `avatar/bintools/gdb/mi_parser.py`). The reader has decoded its lines as ASCII, so the digits are those of ASCII. -/

namespace Avatar

/-- What a parser raises. -/
inductive MiError where
  | python (exception : PyException)
  | unboundLocalError
  | parseError
  /-- `MIProtocolException` -/
  | miProtocolException
  /-- The model has stopped too early. -/
  | outOfFuel
deriving DecidableEq, Repr

structure ParseStream where
  string : List Char
  pos : Nat

abbrev ParseM := EStateM MiError ParseStream

namespace ParseStream

def read (num : Nat) : ParseM (List Char) := fun s =>
  .ok ((s.string.drop s.pos).take num) { s with pos := s.pos + num }

def char : ParseM (List Char) := read 1

def seek (pos : Int) : ParseM Unit := fun s =>
  if 0 ≤ pos ∧ pos < s.string.length then .ok () { s with pos := pos.toNat }
  else .error (.python .assertionError) s

def back (n : Nat) : ParseM Unit := do
  let s ← get
  seek (s.pos - n)

def skip (n : Nat) : ParseM Unit := do
  let s ← get
  seek (s.pos + n)

def peek : ParseM (List Char) := do
  let c ← read 1
  back 1
  return c

/-- The last character is never read. -/
def nextChar (rc : Char) : ParseM Bool := do
  let s ← get
  if s.pos + 1 ≥ s.string.length then return false
  else
    let c ← read 1
    if c ≠ [rc] then
      back 1
      return false
    else return true

/-- No `ParseStreamError` can be built, because a stream has no `getvalue`. At the end of the stream there is not even a
    character for the text of the error. -/
def expectChar (expected : Char) : ParseM Unit := do
  let c ← read 1
  if c ≠ [expected] then
    throw (.python (if c = [] then .typeError else .attributeError))

def checkLimit : ParseM Unit := do
  let s ← get
  if s.pos ≥ s.string.length then throw (.python .attributeError)

end ParseStream

namespace MiParser
open ParseStream

def escapeChars : List (List Char × Char) := [(['n'], '\n'), (['\\'], '\\'), (['"'], '"'), (['t'], '\t')]

/-- The loop of `parse_cstring` -/
def cstringChars : Nat → List Char → ParseM (List Char)
  | 0, _ => throw .outOfFuel
  | fuel + 1, sb => do
    checkLimit
    let c ← char
    if c = ['\\'] then
      let e ← char
      match escapeChars.lookup e with
      | some x => cstringChars fuel (sb ++ [x])
      | none => throw (.python .keyError)
    else if c = ['"'] then return sb
    else cstringChars fuel (sb ++ c)

def parseCstring (fuel : Nat) : ParseM (List Char) := do
  expectChar '"'
  cstringChars fuel []

/-- The loop of `parse_variable` -/
def variableChars : Nat → List Char → ParseM (List Char)
  | 0, _ => throw .outOfFuel
  | fuel + 1, sb => do
    checkLimit
    let c ← char
    if c = ['='] then return sb
    else variableChars fuel (sb ++ c)

def parseVariable (fuel : Nat) : ParseM (List Char) := variableChars fuel []

/-- `results[var] = value` -/
def assign (var : String) (value : MiValue) : List (String × MiValue) → List (String × MiValue)
  | [] => [(var, value)]
  | entry :: results => if entry.1 = var then (var, value) :: results else entry :: assign var value results

mutual

def parseTuple : Nat → ParseM MiValue
  | 0 => throw .outOfFuel
  | fuel + 1 => do
    expectChar '{'
    let c ← peek
    if c = ['}'] then return .tuple []
    else
      let results ← parseResults fuel
      expectChar '}'
      return .tuple results

def parseList : Nat → ParseM MiValue
  | 0 => throw .outOfFuel
  | fuel + 1 => do
    expectChar '['
    let c ← peek
    if c = ['"'] ∨ c = ['{'] ∨ c = ['['] then
      let list ← listValues fuel []
      expectChar ']'
      return .list list
    else if c = [']'] then
      skip 1
      return .list []
    else
      let results ← parseResults fuel
      expectChar ']'
      return .tuple results

/-- The loop over the values of a list -/
def listValues : Nat → List MiValue → ParseM (List MiValue)
  | 0, _ => throw .outOfFuel
  | fuel + 1, list => do
    checkLimit
    let value ← parseValue fuel
    let more ← nextChar ','
    if more then listValues fuel (list ++ [value]) else return list ++ [value]

/-- No branch is for another character, and then `value` has no value. -/
def parseValue : Nat → ParseM MiValue
  | 0 => throw .outOfFuel
  | fuel + 1 => do
    let c ← peek
    if c = ['"'] then
      let s ← parseCstring fuel
      return .const s
    else if c = ['{'] then parseTuple fuel
    else if c = ['['] then parseList fuel
    else throw .unboundLocalError

def parseResults : Nat → ParseM (List (String × MiValue))
  | 0 => throw .outOfFuel
  | fuel + 1 => do
    let _ ← nextChar ','
    resultEntries fuel []

/-- The loop over the results -/
def resultEntries : Nat → List (String × MiValue) → ParseM (List (String × MiValue))
  | 0, _ => throw .outOfFuel
  | fuel + 1, results => do
    checkLimit
    let var ← parseVariable fuel
    let value ← parseValue fuel
    let results := assign (String.ofList var) value results
    let more ← nextChar ','
    if more then resultEntries fuel results else return results

end

/-- The rounds that a text can take. -/
def enough (string : List Char) : Nat := 3 * string.length + 4

/-- `f(ParseStream(string))` -/
def onStream {α : Type} (f : Nat → ParseM α) (string : List Char) : Except MiError α :=
  match f (enough string) ⟨string, 0⟩ with
  | .ok a _ => .ok a
  | .error e _ => .error e

/-- What the last group of a pattern matches, `(,.+)?`. A dot matches no newline. -/
def resultsGroup : List Char → Option (List Char)
  | ',' :: c :: rest => if c = '\n' then none else some (',' :: (c :: rest).takeWhile (· ≠ '\n'))
  | _ => none

/-- `parse_results(ParseStream(m.group('results')))`, where the group has matched. -/
def groupResults : Option (List Char) → Except MiError (Option MiValue)
  | some text => (onStream parseResults text).map fun results => some (.tuple results)
  | none => .ok none

end MiParser

inductive AsyncType where
  | exec
  | status
  | notify
deriving DecidableEq, Repr

structure Async where
  type : AsyncType
  klass : List Char
  results : Option MiValue

inductive ResultClass where
  | done
  | running
  | connected
  | error
  | exit
deriving DecidableEq, Repr

structure MiResult where
  token : Int
  klass : ResultClass
  results : Option MiValue

inductive StreamType where
  | console
  | target
  | errorLog
deriving DecidableEq, Repr

structure MiStream where
  type : StreamType
  string : List Char

inductive MiMessage where
  | async (msg : Async)
  | stream (msg : MiStream)
  | result (msg : MiResult)

namespace Async
open MiParser

/-- `MAP` -/
def map : Char → Option AsyncType
  | '*' => some .exec
  | '+' => some .status
  | '=' => some .notify
  | _ => none

/-- `search(PATTERN, line)`: the groups of the first place where the pattern matches -/
def search : List Char → Option (AsyncType × List Char × Option (List Char))
  | [] => none
  | c :: rest =>
    match map c, rest.takeWhile (· ≠ ',') with
    | some type, k :: klass => some (type, k :: klass, resultsGroup (rest.dropWhile (· ≠ ',')))
    | _, _ => search rest

def ofLine (line : List Char) : Except MiError Async :=
  match search line with
  | none => .error .parseError
  | some (type, klass, group) => (groupResults group).map fun results => ⟨type, klass, results⟩

end Async

namespace ResultClass

/-- `(?P<class>done|running|connected|error|exit)`: the class that a text starts with, and what follows it -/
def ofPrefix : List Char → Option (ResultClass × List Char)
  | 'd' :: 'o' :: 'n' :: 'e' :: rest => some (done, rest)
  | 'r' :: 'u' :: 'n' :: 'n' :: 'i' :: 'n' :: 'g' :: rest => some (running, rest)
  | 'c' :: 'o' :: 'n' :: 'n' :: 'e' :: 'c' :: 't' :: 'e' :: 'd' :: rest => some (connected, rest)
  | 'e' :: 'r' :: 'r' :: 'o' :: 'r' :: rest => some (error, rest)
  | 'e' :: 'x' :: 'i' :: 't' :: rest => some (exit, rest)
  | _ => none

end ResultClass

namespace MiResult
open MiParser

/-- `search(PATTERN, line)` -/
def search : List Char → Option (List Char × ResultClass × Option (List Char))
  | [] => none
  | c :: rest =>
    match (c :: rest).takeWhile Char.isDigit, (c :: rest).dropWhile Char.isDigit with
    | d :: token, '^' :: tail =>
      match ResultClass.ofPrefix tail with
      | some (klass, rest') => some (d :: token, klass, resultsGroup rest')
      | none => search rest
    | _, _ => search rest

def ofLine (line : List Char) : Except MiError MiResult :=
  match search line with
  | none => .error .parseError
  | some (token, klass, group) => do
    let token ← (int token 10).mapError .python
    let results ← groupResults group
    return ⟨token, klass, results⟩

end MiResult

namespace MiStream
open MiParser

/-- `MAP` -/
def map : Char → Option StreamType
  | '~' => some .console
  | '@' => some .target
  | '&' => some .errorLog
  | _ => none

end MiStream

namespace MiParser

/-- The first character tells which record a line is. -/
def parse : List Char → Except MiError MiMessage
  | [] => .error .parseError
  | c :: rest =>
    if (Async.map c).isSome then (Async.ofLine (c :: rest)).map .async
    else match MiStream.map c with
    | some type => (onStream parseCstring rest).map fun string => .stream ⟨type, string⟩
    | none => if c.isDigit then (MiResult.ofLine (c :: rest)).map .result else .error .parseError

end MiParser

end Avatar
