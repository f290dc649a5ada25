import Avatar.Bintools.Mi
import Avatar.System

/-! What is made of the notices of a gdb: the events of the target and of the emulator
    (`avatar/targets/gdbserver_target.py`, `avatar/emulators/s2e/s2e_emulator.py`), and the breakpoints that wait for
    them. -/

namespace Avatar

/-- The properties of an event -/
abbrev GdbProperties := List (String × Int)

abbrev GdbEvent := Event GdbProperties

/-- The events that have been posted -/
abbrev PostM := EStateM MiError (List GdbEvent)

namespace Async

/-- `str(msg)`, which has the results iterated over even if there are none -/
def checkStr (msg : Async) : Except MiError Unit :=
  match msg.results with
  | some _ => .ok ()
  | none => .error (.python .attributeError)

/-- `"reason" in msg.results and msg.results["reason"] == reason` -/
def hasReason (msg : Async) (reason : String) : Bool :=
  match msg.results with
  | some results =>
    match results.member "reason" with
    | .ok (.const s) => s = reason.toList
    | _ => false
  | none => false

/-- `msg.results[key]` -/
def result (msg : Async) (key : String) : Except PyException MiValue :=
  match msg.results with
  | some results => results.member key
  | none => .error .typeError

/-- `int(msg.results["frame"]["addr"], 16)` -/
def frameAddress (msg : Async) : Except PyException Int :=
  msg.result "frame" >>= MiValue.member "addr" >>= MiValue.hexadecimal

/-- `int(msg.results["bkptno"])` -/
def bkptNumber (msg : Async) : Except PyException Int := msg.result "bkptno" >>= MiValue.decimal

end Async

/-- `_post_event`, up to the system. An event without properties gets empty ones. -/
def postGdbEvent (tags : List Tag) (source : Source) (properties : GdbProperties) : PostM Unit :=
  modify fun events => events ++ [⟨tags, source, some properties⟩]

def postBreakpoint (source : Source) (msg : Async) : PostM Unit := do
  let address ← StateExcept.lift (msg.frameAddress.mapError .python)
  let number ← StateExcept.lift (msg.bkptNumber.mapError .python)
  postGdbEvent [.stopped, .breakpoint] source [("address", address), ("bkpt_number", number)]

namespace GdbserverTarget

def handleGdbAsyncMessage (msg : Async) : PostM Unit := do
  StateExcept.lift msg.checkStr
  if msg.type = .exec then
    if msg.klass = "running".toList then postGdbEvent [.running] .target []
    else if msg.klass = "stopped".toList then
      if msg.hasReason "breakpoint-hit" then postBreakpoint .target msg
      else if msg.hasReason "signal-received" then
        -- This is a data abort. Without an address it gets a made-up one.
        let address := match msg.frameAddress with
          | .ok address => address
          | .error _ => 0xDEADDEAD
        postGdbEvent [.stopped, .sigabrt] .target [("address", address)]

end GdbserverTarget

namespace S2EEmulator

def handleGdbAsyncMessage (msg : Async) : PostM Unit := do
  StateExcept.lift msg.checkStr
  if msg.type = .exec then
    if msg.klass = "running".toList then postGdbEvent [.running] .emulator []
    else if msg.klass = "stopped".toList then
      if msg.hasReason "breakpoint-hit" then postBreakpoint .emulator msg
      else if msg.hasReason "end-stepping-range" then do
        let address ← StateExcept.lift (msg.frameAddress.mapError .python)
        postGdbEvent [.stopped, .endStepping] .emulator [("address", address)]

end S2EEmulator

/-! ### Breakpoints -/

/-- `evt["properties"]["bkpt_number"] == bkpt_num`; what it raises is logged. -/
def GdbEvent.hasNumber (evt : GdbEvent) (bkpt_num : Int) : Except PyException Bool :=
  match evt.properties with
  | some properties =>
    match properties.lookup "bkpt_number" with
    | some number => .ok (number = bkpt_num)
    | none => .error .keyError
  | none => .error .keyError

/-- What a breakpoint does with an event: it calls its handler or puts the event into its queue, or nothing. -/
inductive Reaction where
  | hit
  | queue
  | nothing
deriving DecidableEq, Repr

/-- `GdbBreakpoint._event_receiver`. An abort of the target reaches every breakpoint. -/
def GdbBreakpoint.eventReceiver (bkpt_num : Int) (evt : GdbEvent) : Except PyException Reaction := do
  let hit ← if .breakpoint ∈ evt.tags ∧ evt.source = .target then evt.hasNumber bkpt_num else pure false
  if hit then return .hit
  else if .sigabrt ∈ evt.tags then return .queue
  else return .nothing

/-- `S2EBreakpoint._event_receiver` -/
def S2EBreakpoint.eventReceiver (bkpt_num : Int) (evt : GdbEvent) : Except PyException Reaction := do
  let hit ← if .breakpoint ∈ evt.tags ∧ evt.source = .emulator then evt.hasNumber bkpt_num else pure false
  if hit then return .hit else return .nothing

end Avatar
