import Avatar.CallProxy

/-! The handlers of the emulator (`avatar/emulators/emulator.py`), and how `avatar/system.py` and
    `avatar/emulators/s2e/s2e_emulator.py` connect the interface, the emulator, the proxy and the target. -/

namespace Avatar

/-- The handlers that have been set. The one for checksums is never asked. -/
structure Emulator (ε μ τ : Type) where
  read_handler : Option (RequestParams → ForwardM ε μ τ Int)
  write_handler : Option (RequestParams → ForwardM ε μ τ Unit)
  set_cpu_state_handler : Option (Json → ForwardM ε μ τ Unit)
  get_cpu_state_handler : Option (ForwardM ε μ τ (List (Json.Str × Json)))
  continue_handler : Option (ForwardM ε μ τ Unit)

namespace Emulator
variable {ε μ τ α : Type} (python : PyException → ε) (emulator : Emulator ε μ τ)

/-- The event of a memory request. It has the dictionary as it is before the monitors. -/
def postEvent (tag : Tag) (params : RequestParams) : ForwardM ε μ τ Unit :=
  modify fun s => { s with posted := s.posted ++ [⟨[tag], .emulator, some params⟩] }

/-- A handler must have been set. -/
def assertHandler (handler : Option α) : ForwardM ε μ τ α :=
  match handler with
  | some handler => pure handler
  | none => throw (python .assertionError)

def notifyReadRequestHandler (params : RequestParams) : ForwardM ε μ τ Int := do
  postEvent .requestReadMemoryValue params
  let handler ← assertHandler python emulator.read_handler
  handler params

def notifyWriteRequestHandler (params : RequestParams) : ForwardM ε μ τ Unit := do
  postEvent .requestWriteMemoryValue params
  let handler ← assertHandler python emulator.write_handler
  handler params

def notifySetCpuStateHandler (cpu_state : Json) : ForwardM ε μ τ Unit := do
  let handler ← assertHandler python emulator.set_cpu_state_handler
  handler cpu_state

def notifyGetCpuStateHandler : ForwardM ε μ τ (List (Json.Str × Json)) := do
  let handler ← assertHandler python emulator.get_cpu_state_handler
  handler

def notifyContinueHandler : ForwardM ε μ τ Unit := do
  let handler ← assertHandler python emulator.continue_handler
  handler

end Emulator

/-- `start` of the system: the handlers are those of the proxy. -/
def EmulatorTargetCallProxy.connect {ε μ τ : Type} (python : PyException → ε) (proxy : EmulatorTargetCallProxy ε μ τ) :
    Emulator ε μ τ where
  read_handler := some (proxy.handleEmulatorReadRequest python)
  write_handler := some (proxy.handleEmulatorWriteRequest python)
  set_cpu_state_handler := some (proxy.handleEmulatorSetCpuStateRequest python)
  get_cpu_state_handler := some (proxy.handleEmulatorGetCpuStateRequest python)
  continue_handler := some (proxy.handleEmulatorContinueRequest python)

namespace S2EEmulator
open EmulatorTargetCallProxy
variable {ε μ τ α : Type}

/-- The interface logs whatever a handler raises. -/
def logged (x : ForwardM ε μ τ α) : S2ERemoteMemoryInterface.HandlerM (Forwarding μ τ) α := fun s =>
  match x s with
  | .ok a s' => .ok a s'
  | .error _ s' => .error .valueError s'

/-- The handlers that `run_s2e_process` gives to the interface. Checksums come from the target without the proxy. -/
def remoteMemoryHandlers (target : TargetAccess ε τ) (emulator : Emulator ε μ τ) :
    S2ERemoteMemoryInterface.Handlers (Forwarding μ τ) where
  read := some fun address size cpu_state =>
    logged (emulator.notifyReadRequestHandler target.python ⟨address, size, none, cpu_state⟩)
  write := some fun address size value cpu_state =>
    logged (emulator.notifyWriteRequestHandler target.python ⟨address, size, some value, cpu_state⟩)
  setCpuState := some fun cpu_state => logged (emulator.notifySetCpuStateHandler target.python cpu_state)
  getCpuState := some (logged (emulator.notifyGetCpuStateHandler target.python))
  cont := some (logged (emulator.notifyContinueHandler target.python))
  getChecksum := some fun address size => logged (onTarget (target.getChecksum address size))

/-- The handlers when everything has been started, with the monitors that have been added. -/
def startedHandlers (target : TargetAccess ε τ) (monitor_hooks : MonitorEvent → List (Monitor ε μ)) :
    S2ERemoteMemoryInterface.Handlers (Forwarding μ τ) :=
  remoteMemoryHandlers target (EmulatorTargetCallProxy.connect target.python ⟨some target, monitor_hooks⟩)

end S2EEmulator

end Avatar
