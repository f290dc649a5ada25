import Avatar.Gdb.GdbServer
import Avatar.Lib.StateExcept

/-! The registers, the memory and the breakpoints of a gdb that is controlled through its machine interface
    (`avatar/bintools/gdb/gdb_debugger.py`). The process is a parameter: it gets the command that `sync_cmd` sends and
    replies with results, or `sync_cmd` raises. -/

namespace Avatar

/-- What the debugger raises. -/
inductive DebuggerError where
  | python (exception : PyException)
  /-- `MIProtocolException` -/
  | miProtocolException

/-- A value in a reply -/
inductive MiValue where
  | const (s : List Char)
  | tuple (members : List (String × MiValue))
  | list (items : List MiValue)

namespace MiValue

/-- `value[key]` -/
def member (key : String) : MiValue → Except PyException MiValue
  | tuple members =>
    match members.lookup key with
    | some value => .ok value
    | none => .error .keyError
  | _ => .error .typeError

/-- `value[i]` -/
def item (i : Nat) : MiValue → Except PyException MiValue
  | list items => GdbServer.item items i
  | const s => (GdbServer.item s i).map fun c => const [c]
  | tuple _ => .error .keyError

/-- What an iteration over the value gives -/
def elements : MiValue → List MiValue
  | list items => items
  | const s => s.map fun c => const [c]
  | tuple members => members.map fun entry => const entry.1.toList

/-- `int(value, 16)` -/
def hexadecimal : MiValue → Except PyException Int
  | const s => int s 16
  | _ => .error .typeError

/-- `int(value)` -/
def decimal : MiValue → Except PyException Int
  | const s => int s 10
  | _ => .error .typeError

end MiValue

/-- A value of an argument -/
inductive PyValue where
  | none
  | bool (b : Bool)
  | int (i : Int)
  | str (s : List Char)
deriving DecidableEq, Repr

namespace PyValue

/-- What the value is in a condition -/
def truthy : PyValue → Bool
  | none => false
  | bool b => b
  | int i => i ≠ 0
  | str s => !s.isEmpty

/-- A `bool` is an `int`. -/
def integer : PyValue → Option Int
  | bool b => some (if b then 1 else 0)
  | int i => some i
  | _ => Option.none

/-- `str(value)` -/
def text : PyValue → List Char
  | none => "None".toList
  | bool b => (if b then "True" else "False").toList
  | int i => Numeral.decInt i
  | str s => s

/-- `"%d" % value` -/
def decimal (value : PyValue) : Except PyException (List Char) :=
  match value.integer with
  | some i => .ok (Numeral.decInt i)
  | Option.none => .error .typeError

end PyValue

/-- What `sync_cmd` does with a command for which it expects `done`. A reply without results has none. -/
abbrev Gdb (σ : Type) := List (List Char) → EStateM DebuggerError σ (Option MiValue)

/-- The state of the process, and `_register_names` -/
structure GdbDebugger (σ : Type) where
  gdb : σ
  register_names : Option (List (List Char × Nat))

namespace GdbDebugger
variable {σ α : Type}

abbrev DebuggerM (σ : Type) := EStateM DebuggerError (GdbDebugger σ)

def python (x : Except PyException α) : DebuggerM σ α := StateExcept.lift (x.mapError .python)

/-- `results[key]` -/
def results (key : String) : Option MiValue → Except PyException MiValue
  | some value => value.member key
  | none => .error .typeError

variable (gdb : Gdb σ)

def syncCmd (cmd : List (List Char)) : DebuggerM σ (Option MiValue) := fun s =>
  match gdb cmd s.gdb with
  | .ok result process => .ok result { s with gdb := process }
  | .error e process => .error e { s with gdb := process }

/-- The key of an entry. Neither a dictionary nor a list is one. -/
def registerName : MiValue × Nat → Except PyException (List Char × Nat)
  | (.const s, i) => .ok (s, i)
  | _ => .error .typeError

/-- The names that are not empty, with their positions. A name may come twice, and then the last position counts. -/
def registerNames (value : MiValue) : Except PyException (List (List Char × Nat)) := do
  let names ← (value.elements.take 10000).zipIdx.mapM registerName
  .ok (names.filter (·.1 ≠ [])).reverse

def mapRegisterName (reg : String) : DebuggerM σ Nat := do
  let s ← get
  let names ← match s.register_names with
    | some (name :: names) => pure (name :: names)
    | _ => do
      let result ← syncCmd gdb ["-data-list-register-names".toList]
      let names ← python (results "register-names" result >>= registerNames)
      modify fun s => { s with register_names := some names }
      pure names
  match names.lookup reg.toList with
  | some number => pure number
  | none => throw (.python .keyError)

/-- Whatever is raised, the register reads as zero. -/
def getRegisterFromNr (reg_num : Int) : DebuggerM σ Int :=
  tryCatch (do
    let result ← syncCmd gdb ["-data-list-register-values".toList, "x".toList, Numeral.decInt reg_num]
    python (results "register-values" result >>= MiValue.item 0 >>= MiValue.member "value" >>= MiValue.hexadecimal))
  fun _ => pure 0

def getRegister (reg : String) : DebuggerM σ Int := do
  let number ← mapRegisterName gdb reg
  getRegisterFromNr gdb number

/-- `"$%s=0x%x" % (reg, value)`. A tuple has no hexadecimal digits. -/
def assignment (reg : RegisterName) : GdbServer.RegisterValue → Except PyException (List Char)
  | .int value =>
    let name := match reg with
      | .str name => name.toList
      | .int number => Numeral.decInt number
    .ok ('$' :: name ++ "=0x".toList ++ Numeral.hexInt value)
  | .tuple _ => .error .typeError

/-- The name is not mapped to a number, nor a number to a name. -/
def setRegister (reg : RegisterName) (value : GdbServer.RegisterValue) : DebuggerM σ Unit := do
  let text ← python (assignment reg value)
  let _ ← syncCmd gdb ["-gdb-set".toList, text]

/-! ### Memory and execution -/

/-- The type that a size stands for -/
def strSize (size : Int) : Except PyException (List Char) :=
  match size with
  | 1 => .ok "char".toList
  | 2 => .ok "short".toList
  | 4 => .ok "long".toList
  | _ => .error .keyError

def writeMemory (address size val : Int) : DebuggerM σ Unit := do
  let str_size ← python (strSize size)
  let _ ← syncCmd gdb ["-gdb-set".toList,
    "*((".toList ++ str_size ++ " *) 0x".toList ++ Numeral.hexInt address ++ ")=0x".toList ++ Numeral.hexInt val]

def readMemory (address size : Int) : DebuggerM σ Int := do
  let _ ← python (strSize size)
  let result ← syncCmd gdb ["-data-read-memory".toList, "0x".toList ++ Numeral.hexInt address, "x".toList,
    Numeral.decInt size, "1".toList, "1".toList]
  python (results "memory" result >>= MiValue.item 0 >>= MiValue.member "data" >>= MiValue.item 0 >>= MiValue.hexadecimal)

def getChecksum (address size : Int) : DebuggerM σ Int := do
  let result ← syncCmd gdb ["-gdb-show".toList, "remote".toList, "checksum".toList, Numeral.hexInt address,
    Numeral.hexInt size]
  python (results "value" result >>= MiValue.decimal)

/-- The command of `cont`, for which `running` is expected -/
def cont (running : Gdb σ) : DebuggerM σ Unit := do
  let _ ← syncCmd running ["-exec-continue".toList]

/-! ### Breakpoints -/

/-- The place of a breakpoint: an address, or whatever the value is as a text -/
def location (line : PyValue) : List Char :=
  match line.integer with
  | some address => "*0x".toList ++ Numeral.hexInt address
  | none => line.text

/-- A switch of a command, for an argument that is true -/
def switch (value : PyValue) (words : Except PyException (List (List Char))) : Except PyException (List (List Char)) :=
  if value.truthy then words else .ok []

/-- The command of `insert_breakpoint` -/
def insertBreakpointCommand (line hardware temporary regex condition ignore_count thread : PyValue) :
    Except PyException (List (List Char)) := do
  let temporarySwitch ← switch temporary (.ok ["-t".toList])
  let hardwareSwitch ← switch hardware (.ok ["-h".toList])
  let regexSwitch ← switch regex (
    if ¬ temporary.truthy ∧ ¬ condition.truthy ∧ ¬ ignore_count.truthy then .ok ["-r".toList]
    else .error .assertionError)
  let conditionSwitch ← switch condition (.ok ["-c".toList, condition.text])
  let ignoreSwitch ← switch ignore_count (ignore_count.decimal.map fun count => ["-i".toList, count])
  let threadSwitch ← switch thread (thread.decimal.map fun number => ["-p".toList, number])
  return "-break-insert".toList :: (temporarySwitch ++ hardwareSwitch ++ regexSwitch ++ conditionSwitch ++
    ignoreSwitch ++ threadSwitch ++ [location line])

/-- The same, for arguments that are given by their positions. The others have their defaults. -/
def positionalCommand (line : PyValue) (args : List PyValue) : Except PyException (List (List Char)) :=
  let arg (i : Nat) (default : PyValue) : PyValue := (args[i]?).getD default
  if args.length > 6 then .error .typeError
  else insertBreakpointCommand line (arg 0 (.bool false)) (arg 1 (.bool false)) (arg 2 (.bool false)) (arg 3 .none)
    (arg 4 (.int 0)) (arg 5 (.int 0))

def insertBreakpoint (line : PyValue) (args : List PyValue) : DebuggerM σ (Option MiValue) := do
  let cmd ← python (positionalCommand line args)
  syncCmd gdb cmd

/-- A breakpoint of a debugger: `GdbBreakpoint`, `S2EBreakpoint` -/
structure Breakpoint where
  bkpt_num : Int
  address : Int

/-- `set_breakpoint` of the two classes that have a debugger. Behind a star, a dictionary gives its keys. -/
def setBreakpoint (address : Int) (properties : List (String × PyValue)) : DebuggerM σ Breakpoint := do
  let properties := properties.filter (·.1 ≠ "thumb")
  let bkpt ← insertBreakpoint gdb (.int address) (properties.map fun property => .str property.1.toList)
  let number ← python (results "bkpt" bkpt >>= MiValue.member "number" >>= MiValue.decimal)
  return ⟨number, address⟩

end GdbDebugger

end Avatar
