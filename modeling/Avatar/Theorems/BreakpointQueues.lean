import Avatar.Bintools.GdbEvents
import Avatar.Theorems.EventDelivery
import Avatar.Theorems.MiSession

/-! # From gdb to the breakpoints

A stop that gdb reports passes three threads on its way to a breakpoint: the one that reads from gdb and posts an event,
the one that passes the events on, and the one that waits for the breakpoint. -/

namespace Avatar
open Transition

/-! ### The listeners of a system that keeps them all -/

namespace System
variable {L P : Type}

/-- The dispatches, the last of which may not have ended -/
def dispatches (s : System L P) : List (Dispatch L P) := s.deliveries.map (·.toDispatch) ++ s.dispatch.toList

/-- The listener with the number has been called with the event. -/
def calledIn (k : Nat) (d : Dispatch L P) : Bool := k ∈ d.calls.map (·.number)

/-- The events that a listener has been called with, in this order -/
def heard (k : Nat) (s : System L P) : List (Event P) := (s.dispatches.filter (calledIn k)).map (·.event)

/-- No listener is unregistered. -/
def Stays (as : List (Action L P)) : Prop := ∀ listener, .unregister listener ∉ as

/-- The listeners are numbered by their positions, and the loop has called those in front of its position. -/
structure Numbered (s : System L P) : Prop where
  numbers : s.listeners.map (·.number) = List.range s.registrations
  called : ∀ d, s.dispatch = some d → d.calls = s.listeners.take d.position
  within : ∀ d, s.dispatch = some d → d.position ≤ s.listeners.length
  past : ∀ d ∈ s.deliveries, ∀ entry ∈ d.calls, entry.number < s.registrations

/-- A listener that has been registered after `r` dispatches is called in the later ones, and only in those. -/
structure Hears (k r : Nat) (s : System L P) : Prop extends Numbered s where
  registered : k < s.registrations
  enough : r ≤ s.deliveries.length
  before : ∀ d ∈ s.deliveries.take r, calledIn k d.toDispatch = false
  after : ∀ d ∈ s.deliveries.drop r, calledIn k d.toDispatch = true

section Numbered
variable {s : System L P} {k r : Nat} {d : Dispatch L P}

theorem numbered_init : Numbered (init : System L P) :=
  ⟨rfl, fun _ h => by (cases h), fun _ h => by (cases h), fun _ h => by (cases h)⟩

/-- At the end of a dispatch all listeners have been called. -/
theorem Numbered.finish (h : Numbered s) (hd : s.dispatch = some d) (hend : s.listeners[d.position]? = none) :
    d.calls.map (·.number) = List.range s.registrations := by
  rw [h.called d hd, List.take_of_length_le (List.getElem?_eq_none_iff.mp hend), h.numbers]

theorem Hears.heard_eq (h : Hears k r s) (hnone : s.dispatch = none) [DecidableEq L] : heard k s = s.taken.drop r := by
  have hsplit : s.deliveries = s.deliveries.take r ++ s.deliveries.drop r := (List.take_append_drop _ _).symm
  have hbefore : ((s.deliveries.take r).map (·.toDispatch)).filter (calledIn k) = [] := by
    rw [List.filter_eq_nil_iff]
    intro d hd
    obtain ⟨d', hd', rfl⟩ := List.mem_map.mp hd
    rw [h.before d' hd']
    exact Bool.false_ne_true
  have hafter : ((s.deliveries.drop r).map (·.toDispatch)).filter (calledIn k) =
      (s.deliveries.drop r).map (·.toDispatch) := by
    rw [List.filter_eq_self]
    intro d hd
    obtain ⟨d', hd', rfl⟩ := List.mem_map.mp hd
    exact h.after d' hd'
  rw [heard, dispatches, taken, hnone]
  simp only [Option.toList_none, List.map_nil, List.append_nil]
  rw [hsplit, List.map_append, List.filter_append, hbefore, hafter, List.nil_append, ← hsplit, List.map_map, List.map_drop]
  rfl

end Numbered

section Step
variable [DecidableEq L] [EmptyCollection P] {s t : System L P} {a : Action L P} {k r : Nat}

theorem Numbered.step (h : Numbered s) (ha : ∀ listener, a ≠ .unregister listener) (hstep : Step s a t) :
    Numbered t := by
  cases hstep with
  | post evt => exact ⟨h.numbers, h.called, h.within, h.past⟩
  | register listener =>
    refine ⟨?_, fun d hd => ?_, fun d hd => ?_, fun d hd entry hentry => Nat.lt_succ_of_lt (h.past d hd entry hentry)⟩
    · show (s.listeners ++ [(⟨s.registrations, listener⟩ : Registration L)]).map (·.number) = List.range (s.registrations + 1)
      rw [List.map_append, h.numbers, List.range_succ]
      rfl
    · show d.calls = (s.listeners ++ [_]).take d.position
      rw [h.called d hd, List.take_append_of_le_length (h.within d hd)]
    · show d.position ≤ (s.listeners ++ [_]).length
      rw [List.length_append]
      exact Nat.le_trans (h.within d hd) (Nat.le_add_right _ _)
  | unregister listener => exact absurd rfl (ha listener)
  | take evt events hnone hevents =>
    refine ⟨h.numbers, fun d hd => ?_, fun d hd => ?_, h.past⟩
    · cases hd
      exact (List.take_zero).symm
    · cases hd
      exact Nat.zero_le _
  | call d entry hd hentry =>
    obtain ⟨hlt, hget⟩ := List.getElem?_eq_some_iff.mp hentry
    refine ⟨h.numbers, fun d' hd' => ?_, fun d' hd' => ?_, h.past⟩
    · cases hd'
      show d.calls ++ [entry] = s.listeners.take (d.position + 1)
      rw [h.called d hd, List.take_succ_eq_append_getElem hlt, hget]
    · cases hd'
      exact hlt
  | finish d hd hend =>
    refine ⟨h.numbers, fun _ h => by (cases h), fun _ h => by (cases h), fun d' hd' entry hentry => ?_⟩
    rcases List.mem_append.mp hd' with hd' | hd'
    · exact h.past d' hd' entry hentry
    · rw [List.mem_singleton.mp hd'] at hentry
      have hmem := List.mem_map_of_mem (f := (·.number)) hentry
      rw [show ({ d with remaining := s.listeners } : Delivery L P).toDispatch = d from rfl, h.finish hd hend] at hmem
      exact List.mem_range.mp hmem

theorem Hears.step (h : Hears k r s) (ha : ∀ listener, a ≠ .unregister listener) (hstep : Step s a t) :
    Hears k r t := by
  have hnumbered := h.toNumbered.step ha hstep
  cases hstep with
  | post evt => exact ⟨hnumbered, h.registered, h.enough, h.before, h.after⟩
  | register listener => exact ⟨hnumbered, Nat.lt_succ_of_lt h.registered, h.enough, h.before, h.after⟩
  | unregister listener => exact absurd rfl (ha listener)
  | take evt events hnone hevents => exact ⟨hnumbered, h.registered, h.enough, h.before, h.after⟩
  | call d entry hd hentry => exact ⟨hnumbered, h.registered, h.enough, h.before, h.after⟩
  | finish d hd hend =>
    have hcalled : calledIn k d = true := by
      rw [calledIn, h.finish hd hend]
      exact decide_eq_true (List.mem_range.mpr h.registered)
    refine ⟨hnumbered, h.registered, ?_, fun d' hd' => ?_, fun d' hd' => ?_⟩
    · exact Nat.le_trans h.enough (by rw [List.length_append]; exact Nat.le_add_right _ _)
    · rw [List.take_append_of_le_length h.enough] at hd'
      exact h.before d' hd'
    · rw [List.drop_append_of_le_length h.enough] at hd'
      rcases List.mem_append.mp hd' with hd' | hd'
      · exact h.after d' hd'
      · rw [List.mem_singleton.mp hd']
        exact hcalled

/-- A new listener has not been called before. -/
theorem hears_register (h : Numbered s) (listener : L) :
    Hears s.registrations s.deliveries.length (s.registerEventListener listener) := by
  refine ⟨h.step (fun _ ha => by cases ha) (.register listener), Nat.lt_succ_self _, Nat.le_refl _, fun d hd => ?_,
    fun d hd => ?_⟩
  · rw [show (s.registerEventListener listener).deliveries = s.deliveries from rfl, List.take_length] at hd
    refine decide_eq_false fun hmem => ?_
    obtain ⟨entry, hentry, hnumber⟩ := List.mem_map.mp hmem
    exact Nat.lt_irrefl _ (hnumber ▸ h.past d hd entry hentry)
  · rw [show (s.registerEventListener listener).deliveries = s.deliveries from rfl, List.drop_length] at hd
    cases hd

/-- A listener that is registered at some time, where none is ever unregistered, is called with every event exactly once
    and in the order of the posts, except those whose dispatch had ended when it was registered. -/
theorem heard_eq_of_stays {as bs : List (Action L P)} {listener : L} (hs : Run Step init as s)
    (ht : Run Step (s.registerEventListener listener) bs t) (hstay : Stays (as ++ bs)) (hnone : t.dispatch = none) :
    heard s.registrations t = t.taken.drop s.deliveries.length := by
  have hnumbered : ∀ {as : List (Action L P)} {s : System L P}, Run Step init as s → Stays as → Numbered s := by
    intro as s h hstay
    induction h with
    | nil => exact numbered_init
    | snoc _ hstep ih =>
      refine (ih fun listener h => hstay listener (List.mem_append_left _ h)).step (fun listener ha => ?_) hstep
      exact hstay listener (ha ▸ List.mem_append_right _ (List.mem_singleton_self _))
  have hears : Hears s.registrations s.deliveries.length t := by
    have hbs : Stays bs := fun listener h => hstay listener (List.mem_append_right _ h)
    have hstart := hears_register (hnumbered hs fun listener h => hstay listener (List.mem_append_left _ h)) listener
    clear hstay hnone
    induction ht with
    | nil => exact hstart
    | snoc _ hstep ih =>
      refine (ih fun listener h => hbs listener (List.mem_append_left _ h)).step (fun listener ha => ?_) hstep
      exact hbs listener (ha ▸ List.mem_append_right _ (List.mem_singleton_self _))
  exact hears.heard_eq hnone

end Step

end System

/-! ### The events of a gdb -/

namespace GdbEvents
open StateExcept

/-- What the target and the emulator do with the messages of their gdb -/
def debugger : Source → Debugger (List GdbEvent)
  | .target => ⟨fun _ => pure (), GdbserverTarget.handleGdbAsyncMessage⟩
  | .emulator => ⟨fun _ => pure (), S2EEmulator.handleGdbAsyncMessage⟩

/-- The breakpoints of the two sides -/
def eventReceiver : Source → Int → GdbEvent → Except PyException Reaction
  | .target => GdbBreakpoint.eventReceiver
  | .emulator => S2EBreakpoint.eventReceiver

/-- The event hits the breakpoint. -/
def isHit (side : Source) (bkpt_num : Int) (evt : GdbEvent) : Bool :=
  match eventReceiver side bkpt_num evt with
  | .ok .hit => true
  | _ => false

/-- The events that are posted for a notice -/
def posts (side : Source) (n : MiSession.Notice) : List GdbEvent := MiSession.handle (debugger side) [] n

theorem appends_postGdbEvent (tags : List Tag) (source : Source) (properties : GdbProperties) :
    Appends (postGdbEvent tags source properties) := Appends.add _

theorem appends_postBreakpoint (source : Source) (msg : Async) : Appends (postBreakpoint source msg) :=
  (Appends.lift _).bind fun _ => (Appends.lift _).bind fun _ => appends_postGdbEvent _ _ _

theorem appends_target (msg : Async) : Appends (GdbserverTarget.handleGdbAsyncMessage msg) := by
  refine (Appends.lift _).bind fun _ => .ite (.ite (appends_postGdbEvent _ _ _) (.ite (.ite ?_ (.ite ?_ ?_)) ?_)) ?_
  · exact appends_postBreakpoint _ _
  · exact appends_postGdbEvent _ _ _
  · exact .pure _
  · exact .pure _
  · exact .pure _

theorem appends_emulator (msg : Async) : Appends (S2EEmulator.handleGdbAsyncMessage msg) := by
  refine (Appends.lift _).bind fun _ => .ite (.ite (appends_postGdbEvent _ _ _) (.ite (.ite ?_ (.ite ?_ ?_)) ?_)) ?_
  · exact appends_postBreakpoint _ _
  · exact (Appends.lift _).bind fun _ => appends_postGdbEvent _ _ _
  · exact .pure _
  · exact .pure _
  · exact .pure _

theorem handle_eq (side : Source) (l : List GdbEvent) (n : MiSession.Notice) :
    MiSession.handle (debugger side) l n = l ++ posts side n := by
  cases n with
  | prompt => exact (Appends.pure ()).final l
  | stream type string => cases side <;> exact (Appends.pure ()).final l
  | async type klass results readable closed =>
    cases side with
    | target => exact (appends_target _).final l
    | emulator => exact (appends_emulator _).final l

theorem foldl_handle (side : Source) (ns : List MiSession.Notice) (l : List GdbEvent) :
    ns.foldl (MiSession.handle (debugger side)) l = l ++ ns.flatMap (posts side) := by
  induction ns generalizing l with
  | nil => exact (List.append_nil l).symm
  | cons n ns ih => rw [List.foldl_cons, ih, handle_eq, List.flatMap_cons, List.append_assoc]

/-- The event is about a breakpoint of the side. -/
def atBreakpoint (side : Source) (evt : GdbEvent) : Bool := .breakpoint ∈ evt.tags ∧ evt.source = side

/-- Only an event about a breakpoint of its own side hits a breakpoint. -/
theorem atBreakpoint_of_isHit {side : Source} {bkpt_num : Int} {evt : GdbEvent} (h : isHit side bkpt_num evt = true) :
    atBreakpoint side evt = true := by
  by_contra hne
  have hne : ¬ (.breakpoint ∈ evt.tags ∧ evt.source = side) := fun hand => hne (decide_eq_true hand)
  have hnot : eventReceiver side bkpt_num evt ≠ .ok .hit := by
    cases side with
    | target =>
      rw [eventReceiver, GdbBreakpoint.eventReceiver, if_neg hne]
      show (if _ then _ else _ : Except PyException Reaction) ≠ _
      split
      · rintro ⟨⟩
      · rintro ⟨⟩
    | emulator =>
      rw [eventReceiver, S2EBreakpoint.eventReceiver, if_neg hne]
      rintro ⟨⟩
  rw [isHit] at h
  split at h
  · next heq => exact hnot heq
  · cases h

variable {π L : Type} [DecidableEq L] {client : MiSession.Client} {process : MiSession.Process π} {side : Source}
  {p : π} {as : List MiSession.Action} {s : MiSession.State π (List GdbEvent)}

/-- What the reading thread has posted at the end of the output -/
theorem posted_of_run (hn : ∀ n ∈ MiSession.emitted as, MiSession.Accepts (debugger side) n)
    (h : Run (MiSession.WholeStep client process (debugger side)) (MiSession.init p []) as s) (hread : s.output = []) :
    s.mi.dbg = (MiSession.emitted as).flatMap (posts side) := by
  obtain ⟨items, handled, I⟩ := MiSession.inv_of_run hn h
  have hnotices := I.notices
  rw [I.items_eq_nil hread, List.filterMap_nil, List.append_nil] at hnotices
  rw [I.debugger, foldl_handle, hnotices]
  rfl

/-- A stop at breakpoint 3 -/
def stopAtThree : MiSession.Notice :=
  .async .exec "stopped".toList [("reason".toList, .const "breakpoint-hit".toList), ("bkptno".toList, .const ['3']),
    ("frame".toList, .tuple [("addr".toList, .const "0x8000".toList)])]
    ⟨by decide, by decide, by decide,
      by simp [MiTerm.ReadableResults, MiTerm.Readable, MiTerm.PlainName]⟩ rfl

/-- A thread that has nothing to do -/
def idleClient : MiSession.Client where
  next _ := none
  plain _ _ _ h := by cases h
  line _ _ _ h := by cases h

def hitEvent : GdbEvent := ⟨[.stopped, .breakpoint], .emulator, some [("address", 0x8000), ("bkpt_number", 3)]⟩

theorem posts_stopAtThree (l : List GdbEvent) :
    stopAtThree.handled (debugger .emulator) l = .ok () (l ++ [hitEvent]) := rfl

/-- An access to the memory that the emulator forwards -/
def forwardedEvent : GdbEvent := ⟨[.requestReadMemoryValue], .emulator, some [("address", 0x1f), ("size", 4)]⟩

/-- What gdb writes for the stop -/
def stopBytes : List Bytes.Byte := (stopAtThree.print ++ ['\n']).map Ascii.byte

theorem run_stopBytes : Mi.run (debugger .emulator) [] [stopBytes] ⟨[], []⟩ = .ok (some []) ⟨[hitEvent], []⟩ := by
  have hline : '\n' ∉ stopAtThree.print := MiSession.Item.newline_notMem_print (.notice stopAtThree)
  have hcomplete : Lines.complete '\n' [] (stopAtThree.print ++ ['\n']) = [stopAtThree.print] := Lines.complete_line hline
  have hbare : Mi.bareDone ∉ Lines.complete '\n' [] (stopAtThree.print ++ ['\n']) := by
    rw [hcomplete]
    exact mt List.mem_singleton.mp (MiSession.Item.print_ne_bareDone (.notice stopAtThree)).symm
  have hdeliver : Mi.deliver (debugger .emulator) (Lines.complete '\n' [] (stopAtThree.print ++ ['\n'])) ⟨[], []⟩ =
      .ok () ⟨[hitEvent], []⟩ := by
    have haccepted : ∀ item ∈ [MiSession.Item.notice stopAtThree], ∀ n, item = .notice n →
        MiSession.Accepts (debugger .emulator) n := by
      rintro item hitem n rfl
      cases List.mem_singleton.mp hitem
      exact fun d => ⟨_, posts_stopAtThree d⟩
    have hitems := MiSession.deliver_items haccepted ⟨[], []⟩
    have hhandle : MiSession.handle (debugger .emulator) [] stopAtThree = [hitEvent] := by
      rw [MiSession.handle, posts_stopAtThree]
      rfl
    rw [List.map_singleton, MiSession.Item.print] at hitems
    simp only [List.filterMap_cons, MiSession.Item.notice?, MiSession.Item.reply?, List.filterMap_nil, List.foldl_cons,
      List.foldl_nil, List.append_nil, hhandle] at hitems
    rw [hcomplete]
    exact hitems
  have hdecode : Ascii.decode stopBytes = some (stopAtThree.print ++ ['\n']) := Ascii.decode_map_byte (by decide)
  have hrun := Mi.run_read_ok hdecode (by decide) List.not_mem_nil hbare hdeliver
  rw [Lines.unfinished_line hline] at hrun
  exact hrun

end GdbEvents

end Avatar
