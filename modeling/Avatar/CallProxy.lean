import Avatar.Gdb.Protocol
import Avatar.Interfaces.S2eRemoteMemory
import Avatar.System

/-! The way of a request from the emulator to the target: the handlers of the emulator (`avatar/emulators/emulator.py`) and
    the proxy that calls the monitors and the target (`avatar/call_proxy.py`), as `avatar/system.py` and
    `avatar/emulators/s2e/s2e_emulator.py` put them together. -/

namespace Avatar
open StateExcept

/-- The dictionary of a memory request. The value of a read is missing until the target has been asked. -/
structure RequestParams where
  address : Int
  size : Int
  value : Option Int
  cpu_state : Json

/-- What a register is called by: its name, or an element of a list that comes instead of a dictionary -/
inductive RegisterKey where
  | name (reg : String)
  | number (reg : Int)
  | truth (reg : Bool)
deriving DecidableEq, Repr

/-- What is called on the target. It raises errors of type `ε`, and its state is of type `τ`. -/
structure TargetAccess (ε τ : Type) where
  python : PyException → ε
  readTypedMemory : Int → Int → EStateM ε τ Int
  writeTypedMemory : Int → Int → Int → EStateM ε τ Unit
  setRegister : RegisterKey → Int → EStateM ε τ Unit
  getRegister : String → EStateM ε τ Int
  cont : EStateM ε τ Unit
  getChecksum : Int → Int → EStateM ε τ Int

/-- `MONITOR_EVENTS` -/
inductive MonitorEvent where
  | emulatorPreReadRequest
  | emulatorPostReadRequest
  | emulatorPreWriteRequest
  | emulatorPostWriteRequest
deriving DecidableEq, Repr

/-- A method of a monitor, which may change the dictionary and raise. -/
abbrev MonitorHook (ε μ : Type) := RequestParams → EStateM ε μ RequestParams

/-- A monitor and the methods that it has. The number tells the monitors apart. -/
structure Monitor (ε μ : Type) where
  number : Nat
  hook : MonitorEvent → Option (MonitorHook ε μ)

/-- What is behind the handlers: the events that have been posted, the monitors and the target. -/
structure Forwarding (μ τ : Type) where
  posted : List (Event RequestParams)
  monitors : μ
  target : τ

abbrev ForwardM (ε μ τ : Type) := EStateM ε (Forwarding μ τ)

/-! ### The proxy -/

structure EmulatorTargetCallProxy (ε μ τ : Type) where
  target : Option (TargetAccess ε τ)
  monitor_hooks : MonitorEvent → List (Monitor ε μ)

namespace EmulatorTargetCallProxy
variable {ε μ τ α : Type}

def addMonitor (monitor : Monitor ε μ) (proxy : EmulatorTargetCallProxy ε μ τ) : EmulatorTargetCallProxy ε μ τ :=
  { proxy with monitor_hooks := fun event =>
      if (monitor.hook event).isSome then proxy.monitor_hooks event ++ [monitor] else proxy.monitor_hooks event }

/-- The first entry of the monitor is removed from each list. -/
def removeMonitor (monitor : Monitor ε μ) (proxy : EmulatorTargetCallProxy ε μ τ) : EmulatorTargetCallProxy ε μ τ :=
  { proxy with monitor_hooks := fun event => (proxy.monitor_hooks event).eraseP (·.number = monitor.number) }

variable (python : PyException → ε)

/-- A method of the target -/
def onTarget (x : EStateM ε τ α) : ForwardM ε μ τ α := fun s =>
  match x s.target with
  | .ok a target => .ok a { s with target }
  | .error e target => .error e { s with target }

/-- A method of a monitor -/
def onMonitor (x : EStateM ε μ α) : ForwardM ε μ τ α := fun s =>
  match x s.monitors with
  | .ok a monitors => .ok a { s with monitors }
  | .error e monitors => .error e { s with monitors }

def raises (x : Except PyException α) : ForwardM ε μ τ α := lift (x.mapError python)

def callMonitor (event : MonitorEvent) (params : RequestParams) (monitor : Monitor ε μ) : ForwardM ε μ τ RequestParams :=
  match monitor.hook event with
  | some hook => onMonitor (hook params)
  | none => throw (python .attributeError)

variable (proxy : EmulatorTargetCallProxy ε μ τ)

/-- The loop over the monitors of an event -/
def notify (event : MonitorEvent) (params : RequestParams) : ForwardM ε μ τ RequestParams :=
  (proxy.monitor_hooks event).foldlM (callMonitor python event) params

/-- `assert(self._target)` -/
def assertTarget : ForwardM ε μ τ (TargetAccess ε τ) :=
  match proxy.target with
  | some target => pure target
  | none => throw (python .assertionError)

/-- `params["value"]` -/
def value (params : RequestParams) : ForwardM ε μ τ Int :=
  match params.value with
  | some value => pure value
  | none => throw (python .keyError)

def handleEmulatorReadRequest (params : RequestParams) : ForwardM ε μ τ Int := do
  let target ← proxy.assertTarget python
  let params ← proxy.notify python .emulatorPreReadRequest params
  let value ← onTarget (target.readTypedMemory params.address params.size)
  let params ← proxy.notify python .emulatorPostReadRequest { params with value := some value }
  EmulatorTargetCallProxy.value python params

def handleEmulatorWriteRequest (params : RequestParams) : ForwardM ε μ τ Unit := do
  let target ← proxy.assertTarget python
  let params ← proxy.notify python .emulatorPreWriteRequest params
  let value ← EmulatorTargetCallProxy.value python params
  onTarget (target.writeTypedMemory params.address params.size value)
  let _ ← proxy.notify python .emulatorPostWriteRequest params

/-- The entries of the dictionary that the members of an object make: a key keeps its first place and has its last
    value. -/
def entries (members : List (Json.Str × Json)) : List (Json.Str × Json) :=
  members.foldl (fun dict m =>
    if (dict.map Prod.fst).contains m.1 then dict.map fun entry => if entry.1 = m.1 then m else entry else dict ++ [m]) []

/-- An element of a list as a position in the list. A float is none, and a truth value is one. -/
def position : Json → Except PyException (RegisterKey × Int)
  | .num literal =>
    match Numeral.parse 10 literal with
    | some i => .ok (.number i, i)
    | none => .error .typeError
  | .bool b => .ok (.truth b, if b then 1 else 0)
  | _ => .error .typeError

def setCpuRegister (target : TargetAccess ε τ) (reg : RegisterKey) (text : Json) : ForwardM ε μ τ Unit := do
  let value ← raises python (S2ERemoteMemoryInterface.hexInt text)
  onTarget (target.setRegister reg value)

/-- The registers are set one after the other, until one of them cannot be set. Whatever can be iterated over is: a list
    is indexed with its own elements, and a string with its characters, which always raises. -/
def handleEmulatorSetCpuStateRequest (cpu_state : Json) : ForwardM ε μ τ Unit := do
  let target ← proxy.assertTarget python
  match cpu_state with
  | .obj members =>
    (entries members).forM fun (reg, text) =>
      if reg = Json.units "cpsr" then pure ()
      else setCpuRegister python target (.name (String.ofList (reg.map Char.ofNat))) text
  | .arr elements =>
    elements.forM fun reg =>
      if S2ERemoteMemoryInterface.isStr reg "cpsr" then pure ()
      else do
        let (key, i) ← raises python (position reg)
        let text ← raises python (GdbProtocol.pyItem elements i)
        setCpuRegister python target key text
  | .str [] => pure ()
  | _ => throw (python .typeError)

/-- `hex(val)` -/
def hex : Int → Json
  | .ofNat n => .str (('0' :: 'x' :: Numeral.hex n).map Char.toNat)
  | .negSucc n => .str (('-' :: '0' :: 'x' :: Numeral.hex (n + 1)).map Char.toNat)

/-- The registers that are read, and the keys of their values -/
def cpuStateRegisters : List (String × String) :=
  (List.range 13).map (fun r => ("r" ++ String.ofList (Numeral.dec r), "cpu_state_r" ++ String.ofList (Numeral.dec r))) ++
    [("sp", "cpu_state_r13"), ("lr", "cpu_state_r14"), ("pc", "cpu_state_pc")]

def handleEmulatorGetCpuStateRequest : ForwardM ε μ τ (List (Json.Str × Json)) := do
  let target ← proxy.assertTarget python
  cpuStateRegisters.mapM fun (reg, key) => do
    let val ← onTarget (target.getRegister reg)
    return (Json.units key, hex val)

def handleEmulatorContinueRequest : ForwardM ε μ τ Unit := do
  let target ← proxy.assertTarget python
  onTarget target.cont

end EmulatorTargetCallProxy

end Avatar
