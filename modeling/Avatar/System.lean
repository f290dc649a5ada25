import Mathlib.Data.List.Basic

/-! The events of a system, and the thread that passes them on to the listeners (`avatar/system.py`). -/

namespace Avatar

inductive Tag where
  | stopped
  | breakpoint
  | endStepping
  | running
  | requestReadMemoryValue
  | requestWriteMemoryValue
  | responseReadMemoryValue
  | responseWriteMemoryValue
  | sigabrt
deriving DecidableEq, Repr

/-- The side that an event comes from -/
inductive Source where
  | emulator
  | target
deriving DecidableEq, Repr

/-- An event, whose `properties` are a dictionary of type `P` or missing. -/
structure Event (P : Type) where
  tags : List Tag
  source : Source
  properties : Option P
deriving DecidableEq

/-- An entry of `_listeners`. The number tells the entries of one listener apart. -/
structure Registration (L : Type) where
  number : Nat
  listener : L
deriving DecidableEq, Repr

/-- The loop over the listeners for an event, at a position of the list. -/
structure Dispatch (L P : Type) where
  event : Event P
  position : Nat
  /-- The entries when the event was taken -/
  registered : List (Registration L)
  /-- The entries whose listener has been called, in order -/
  calls : List (Registration L)
  /-- The entries that were next when an entry in front of them was removed -/
  passed : List (Registration L)

/-- The loop when the entry `i` is removed: the one at its position moves in front of it. -/
def Dispatch.remove {L P : Type} (listeners : List (Registration L)) (i : Nat) (d : Dispatch L P) : Dispatch L P :=
  if i < d.position then { d with passed := d.passed ++ listeners[d.position]?.toList } else d

/-- A dispatch that has ended, and the entries at its end. -/
structure Delivery (L P : Type) extends Dispatch L P where
  remaining : List (Registration L)

/-- The listeners and events of a system, and what has happened to them: the number of registrations, the events that
    were posted, and the dispatches that have ended. -/
structure System (L P : Type) where
  listeners : List (Registration L)
  events : List (Event P)
  dispatch : Option (Dispatch L P)
  registrations : Nat
  posted : List (Event P)
  deliveries : List (Delivery L P)

namespace System
variable {L P : Type}

def init : System L P where
  listeners := []
  events := []
  dispatch := none
  registrations := 0
  posted := []
  deliveries := []

section Operations
variable [DecidableEq L] [EmptyCollection P]

/-- `post_event` -/
def postEvent (evt : Event P) (s : System L P) : System L P :=
  let evt := { evt with properties := some (evt.properties.getD ∅) }
  { s with events := s.events ++ [evt], posted := s.posted ++ [evt] }

/-- `register_event_listener` -/
def registerEventListener (listener : L) (s : System L P) : System L P :=
  { s with
    listeners := s.listeners ++ [⟨s.registrations, listener⟩]
    registrations := s.registrations + 1 }

/-- `unregister_event_listener` removes the first entry of the listener. It raises if there is none. -/
def unregisterEventListener (listener : L) (s : System L P) : System L P :=
  match s.listeners.findIdx? (·.listener = listener) with
  | none => s
  | some i =>
    { s with
      listeners := s.listeners.eraseIdx i
      dispatch := s.dispatch.map (·.remove s.listeners i) }

inductive Action (L P : Type) where
  | post (evt : Event P)
  | register (listener : L)
  | unregister (listener : L)
  | take
  | call
  | finish

/-- One step of `_process_events`, or a call of one of the other methods, by a listener or by another thread. What a
    listener raises is logged, and the loop goes on. -/
inductive Step (s : System L P) : Action L P → System L P → Prop where
  | post (evt : Event P) : Step s (.post evt) (s.postEvent evt)
  | register (listener : L) : Step s (.register listener) (s.registerEventListener listener)
  | unregister (listener : L) : Step s (.unregister listener) (s.unregisterEventListener listener)
  | take (evt : Event P) (events : List (Event P)) : s.dispatch = none → s.events = evt :: events →
      Step s .take { s with events, dispatch := some ⟨evt, 0, s.listeners, [], []⟩ }
  | call (d : Dispatch L P) (entry : Registration L) : s.dispatch = some d → s.listeners[d.position]? = some entry →
      Step s .call { s with
        dispatch := some { d with position := d.position + 1, calls := d.calls ++ [entry] } }
  | finish (d : Dispatch L P) : s.dispatch = some d → s.listeners[d.position]? = none →
      Step s .finish { s with
        dispatch := none
        deliveries := s.deliveries ++ [{ d with remaining := s.listeners }] }

end Operations

end System

end Avatar
