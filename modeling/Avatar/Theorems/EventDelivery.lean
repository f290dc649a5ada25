import Mathlib.Data.List.Nodup
import Avatar.Lib.Transition
import Avatar.System

/-! The delivery of events. The loop over the listeners counts positions of a list that changes under it: when an entry
    is removed that the loop has been at, the next one moves to a place that the loop has left, and is passed over. -/

namespace Avatar
open Transition

namespace System
variable {L P : Type}

/-! ### The loop -/

/-- The loop at its position in the list: what is behind it has been called or passed over, what is ahead has not. -/
structure Walks (listeners : List (Registration L)) (registrations : Nat) (d : Dispatch L P) : Prop where
  behind : ∀ j entry, j < d.position → listeners[j]? = some entry → entry ∈ d.registered →
    entry ∈ d.calls ∨ entry ∈ d.passed
  ahead : ∀ j entry, d.position ≤ j → listeners[j]? = some entry → entry ∉ d.calls ∧ entry ∉ d.passed
  nodup : d.calls.Nodup
  apart : ∀ entry ∈ d.passed, entry ∉ d.calls
  calls_lt : ∀ entry ∈ d.calls, entry.number < registrations
  passed_lt : ∀ entry ∈ d.passed, entry.number < registrations
  registered_lt : ∀ entry ∈ d.registered, entry.number < registrations

section Walks
variable {listeners : List (Registration L)} {registrations : Nat} {d : Dispatch L P} {entry : Registration L}

theorem Walks.start (hlt : ∀ entry ∈ listeners, entry.number < registrations) (evt : Event P) :
    Walks listeners registrations ⟨evt, 0, listeners, [], []⟩ where
  behind j _ hj := absurd hj (Nat.not_lt_zero j)
  ahead _ _ _ _ := ⟨List.not_mem_nil, List.not_mem_nil⟩
  nodup := .nil
  apart _ h := absurd h List.not_mem_nil
  calls_lt _ h := absurd h List.not_mem_nil
  passed_lt _ h := absurd h List.not_mem_nil
  registered_lt := hlt

/-- A new entry is not one of those that were there at the start. -/
theorem Walks.register (h : Walks listeners registrations d) (listener : L) :
    Walks (listeners ++ [⟨registrations, listener⟩]) (registrations + 1) d where
  behind j entry hj hentry hmem := by
    rcases Nat.lt_or_ge j listeners.length with hlt | hge
    · rw [List.getElem?_append_left hlt] at hentry
      exact h.behind j entry hj hentry hmem
    · rw [List.getElem?_append_right hge] at hentry
      cases List.mem_singleton.mp (List.mem_of_getElem? hentry)
      exact absurd (h.registered_lt _ hmem) (Nat.lt_irrefl _)
  ahead j entry hj hentry := by
    rcases Nat.lt_or_ge j listeners.length with hlt | hge
    · rw [List.getElem?_append_left hlt] at hentry
      exact h.ahead j entry hj hentry
    · rw [List.getElem?_append_right hge] at hentry
      cases List.mem_singleton.mp (List.mem_of_getElem? hentry)
      exact ⟨fun hmem => Nat.lt_irrefl _ (h.calls_lt _ hmem), fun hmem => Nat.lt_irrefl _ (h.passed_lt _ hmem)⟩
  nodup := h.nodup
  apart := h.apart
  calls_lt entry hmem := Nat.lt_succ_of_lt (h.calls_lt entry hmem)
  passed_lt entry hmem := Nat.lt_succ_of_lt (h.passed_lt entry hmem)
  registered_lt entry hmem := Nat.lt_succ_of_lt (h.registered_lt entry hmem)

/-- Removing an entry moves those behind it forward: if the loop has been at the entry, the next one is passed over. -/
theorem Walks.remove (h : Walks listeners registrations d) (hlt : ∀ entry ∈ listeners, entry.number < registrations)
    (hnodup : listeners.Nodup) (i : Nat) : Walks (listeners.eraseIdx i) registrations (d.remove listeners i) := by
  have hnext : ∀ entry ∈ listeners[d.position]?.toList, listeners[d.position]? = some entry := by
    intro entry hmem
    exact Option.mem_toList.mp hmem
  rw [Dispatch.remove]
  by_cases hi : i < d.position
  · rw [if_pos hi]
    refine ⟨fun j entry hj hentry hmem => ?_, fun j entry hj hentry => ?_, h.nodup, fun entry hmem => ?_, h.calls_lt,
      fun entry hmem => ?_, h.registered_lt⟩
    · rcases Nat.lt_or_ge j i with hji | hji
      · rw [List.getElem?_eraseIdx_of_lt hji] at hentry
        exact (h.behind j entry hj hentry hmem).imp_right (List.mem_append_left _)
      · rw [List.getElem?_eraseIdx_of_ge hji] at hentry
        rcases Nat.lt_or_eq_of_le (Nat.succ_le_of_lt hj) with hnext' | hnext'
        · exact (h.behind (j + 1) entry hnext' hentry hmem).imp_right (List.mem_append_left _)
        · rw [← hnext', Nat.succ_eq_add_one, hentry]
          exact .inr (List.mem_append_right _ (List.mem_singleton_self _))
    · have hj : d.position ≤ j := hj
      rw [List.getElem?_eraseIdx_of_ge (by omega)] at hentry
      obtain ⟨hcalls, hpassed⟩ := h.ahead (j + 1) entry (Nat.le_succ_of_le hj) hentry
      refine ⟨hcalls, fun hmem => ?_⟩
      rcases List.mem_append.mp hmem with hmem | hmem
      · exact hpassed hmem
      · have heq := hentry.trans (hnext entry hmem).symm
        have hindex := (List.getElem?_inj (List.getElem?_eq_some_iff.mp hentry).1 hnodup).mp heq
        omega
    · rcases List.mem_append.mp hmem with hmem | hmem
      · exact h.apart entry hmem
      · exact (h.ahead _ _ (Nat.le_refl _) (hnext entry hmem)).1
    · rcases List.mem_append.mp hmem with hmem | hmem
      · exact h.passed_lt entry hmem
      · exact hlt entry (List.mem_of_getElem? (hnext entry hmem))
  · rw [if_neg hi]
    refine { h with behind := fun j entry hj hentry => ?_, ahead := fun j entry hj hentry => ?_ }
    · rw [List.getElem?_eraseIdx, if_pos (by omega)] at hentry
      exact h.behind j entry hj hentry
    · rw [List.getElem?_eraseIdx] at hentry
      split at hentry
      · exact h.ahead j entry hj hentry
      · exact h.ahead (j + 1) entry (Nat.le_succ_of_le hj) hentry

/-- The next entry is called for the first time. -/
theorem Walks.call (h : Walks listeners registrations d) (hlt : ∀ entry ∈ listeners, entry.number < registrations)
    (hnodup : listeners.Nodup) (hentry : listeners[d.position]? = some entry) :
    Walks listeners registrations { d with position := d.position + 1, calls := d.calls ++ [entry] } where
  behind j entry' hj hentry' hmem := by
    rcases Nat.lt_succ_iff_lt_or_eq.mp hj with hj | rfl
    · exact (h.behind j entry' hj hentry' hmem).imp_left (List.mem_append_left _)
    · cases hentry.symm.trans hentry'
      exact .inl (List.mem_append_right _ (List.mem_singleton_self _))
  ahead j entry' hj hentry' := by
    obtain ⟨hcalls, hpassed⟩ := h.ahead j entry' (Nat.le_of_succ_le hj) hentry'
    refine ⟨fun hmem => ?_, hpassed⟩
    rcases List.mem_append.mp hmem with hmem | hmem
    · exact hcalls hmem
    · cases List.mem_singleton.mp hmem
      have heq := hentry'.trans hentry.symm
      have hindex := (List.getElem?_inj (List.getElem?_eq_some_iff.mp hentry').1 hnodup).mp heq
      exact Nat.not_succ_le_self _ (hindex ▸ hj)
  nodup := by
    have hnew := (h.ahead _ _ (Nat.le_refl _) hentry).1
    exact List.nodup_append.mpr ⟨h.nodup, List.nodup_singleton _, fun a ha b hb hab => by
      cases List.mem_singleton.mp hb
      exact hnew (hab ▸ ha)⟩
  apart entry' hmem hcalled := by
    rcases List.mem_append.mp hcalled with hcalled | hcalled
    · exact h.apart entry' hmem hcalled
    · cases List.mem_singleton.mp hcalled
      exact (h.ahead _ _ (Nat.le_refl _) hentry).2 hmem
  calls_lt entry' hmem := by
    rcases List.mem_append.mp hmem with hmem | hmem
    · exact h.calls_lt entry' hmem
    · cases List.mem_singleton.mp hmem
      exact hlt _ (List.mem_of_getElem? hentry)
  passed_lt := h.passed_lt
  registered_lt := h.registered_lt

theorem event_remove (listeners : List (Registration L)) (i : Nat) (d : Dispatch L P) :
    (d.remove listeners i).event = d.event := by
  rw [Dispatch.remove]
  split
  · rfl
  · rfl

end Walks

end System

/-! ### Deliveries -/

namespace Delivery
variable {L P : Type}

/-- Each listener that was registered from the start to the end of the dispatch has been called exactly once. -/
def Complete [DecidableEq L] (d : Delivery L P) : Prop :=
  ∀ entry ∈ d.registered, entry ∈ d.remaining → d.calls.count entry = 1

/-- Each listener that was passed over and was there at the start has been unregistered before the end. -/
def NoneLeftOut (d : Delivery L P) : Prop := ∀ entry ∈ d.registered, entry ∈ d.remaining → entry ∉ d.passed

end Delivery

namespace System
variable {L P : Type} [DecidableEq L]

/-- The events taken so far -/
def taken (s : System L P) : List (Event P) := s.deliveries.map (·.event) ++ s.dispatch.toList.map (·.event)

structure Inv (s : System L P) : Prop where
  nodup : s.listeners.Nodup
  numbers : ∀ entry ∈ s.listeners, entry.number < s.registrations
  walks : ∀ d, s.dispatch = some d → Walks s.listeners s.registrations d
  order : s.posted = s.taken ++ s.events
  complete : ∀ d ∈ s.deliveries, d.Complete ↔ d.NoneLeftOut

section Inv
variable {s t : System L P} {d : Dispatch L P}

/-- At the end of the loop everything is behind it. -/
theorem Walks.complete_iff {listeners : List (Registration L)} {registrations : Nat}
    (h : Walks listeners registrations d) (hend : listeners[d.position]? = none) :
    Delivery.Complete { d with remaining := listeners } ↔ Delivery.NoneLeftOut { d with remaining := listeners } := by
  refine forall_congr' fun entry => forall_congr' fun hregistered => forall_congr' fun hmem => ?_
  obtain ⟨j, hj⟩ := List.mem_iff_getElem?.mp hmem
  have hlt : j < d.position :=
    Nat.lt_of_lt_of_le (List.getElem?_eq_some_iff.mp hj).1 (List.getElem?_eq_none_iff.mp hend)
  constructor
  · intro hcount hpassed
    exact h.apart entry hpassed (List.count_pos_iff.mp (Nat.lt_of_lt_of_eq Nat.one_pos hcount.symm))
  · intro hpassed
    rcases h.behind j entry hlt hj hregistered with hcalls | hpassed'
    · exact List.count_eq_one_of_mem h.nodup hcalls
    · exact absurd hpassed' hpassed

theorem inv_init : Inv (init : System L P) where
  nodup := .nil
  numbers _ h := absurd h List.not_mem_nil
  walks _ h := by cases h
  order := rfl
  complete _ h := absurd h List.not_mem_nil

theorem Inv.post [EmptyCollection P] (h : Inv s) (evt : Event P) : Inv (s.postEvent evt) where
  nodup := h.nodup
  numbers := h.numbers
  walks := h.walks
  order := by
    rw [postEvent]
    dsimp only
    rw [h.order, List.append_assoc]
    rfl
  complete := h.complete

theorem Inv.register (h : Inv s) (listener : L) : Inv (s.registerEventListener listener) where
  nodup := by
    refine List.nodup_append.mpr ⟨h.nodup, List.nodup_singleton _, fun entry hmem entry' hnew heq => ?_⟩
    rw [List.mem_singleton.mp hnew] at heq
    exact Nat.lt_irrefl _ (heq ▸ h.numbers entry hmem)
  numbers entry hmem := by
    rcases List.mem_append.mp hmem with hmem | hmem
    · exact Nat.lt_succ_of_lt (h.numbers entry hmem)
    · rw [List.mem_singleton.mp hmem]
      exact Nat.lt_succ_self _
  walks d hd := (h.walks d hd).register listener
  order := h.order
  complete := h.complete

theorem Inv.unregister (h : Inv s) (listener : L) : Inv (s.unregisterEventListener listener) := by
  rw [unregisterEventListener]
  cases s.listeners.findIdx? (·.listener = listener) with
  | none => exact h
  | some i =>
    have hsub := List.eraseIdx_sublist s.listeners i
    refine ⟨h.nodup.sublist hsub, fun entry hmem => h.numbers entry (hsub.mem hmem), fun d hd => ?_, ?_, h.complete⟩
    · obtain ⟨d', hd', rfl⟩ := Option.map_eq_some_iff.mp hd
      exact (h.walks d' hd').remove h.numbers h.nodup i
    · rw [h.order, taken, taken]
      cases s.dispatch with
      | none => rfl
      | some d =>
        simp only [Option.map_some, Option.toList_some, List.map_cons, List.map_nil, event_remove]

theorem Inv.take (h : Inv s) {evt : Event P} {events : List (Event P)} (hnone : s.dispatch = none)
    (hevents : s.events = evt :: events) :
    Inv { s with events, dispatch := some ⟨evt, 0, s.listeners, [], []⟩ } where
  nodup := h.nodup
  numbers := h.numbers
  walks d hd := by
    cases hd
    exact Walks.start h.numbers evt
  order := by
    have horder := h.order
    rw [taken, hnone, hevents] at horder
    rw [taken, List.append_assoc]
    exact horder.trans (by rw [Option.toList_none, List.map_nil, List.append_nil]; rfl)
  complete := h.complete

theorem Inv.call (h : Inv s) {entry : Registration L} (hd : s.dispatch = some d)
    (hentry : s.listeners[d.position]? = some entry) : Inv { s with
      dispatch := some { d with position := d.position + 1, calls := d.calls ++ [entry] } } where
  nodup := h.nodup
  numbers := h.numbers
  walks d' hd' := by
    cases hd'
    exact (h.walks d hd).call h.numbers h.nodup hentry
  order := by
    have horder := h.order
    rw [taken, hd] at horder
    exact horder
  complete := h.complete

theorem Inv.finish (h : Inv s) (hd : s.dispatch = some d) (hend : s.listeners[d.position]? = none) : Inv { s with
    dispatch := none
    deliveries := s.deliveries ++ [{ d with remaining := s.listeners }] } where
  nodup := h.nodup
  numbers := h.numbers
  walks _ hd' := by cases hd'
  order := by
    have horder := h.order
    rw [taken, hd] at horder
    rw [taken, List.map_append]
    exact horder.trans (by rw [Option.toList_none, List.map_nil, List.append_nil]; rfl)
  complete d' hmem := by
    rcases List.mem_append.mp hmem with hmem | hmem
    · exact h.complete d' hmem
    · cases List.mem_singleton.mp hmem
      exact (h.walks d hd).complete_iff hend

theorem Inv.step [EmptyCollection P] {a : Action L P} (h : Inv s) (hstep : Step s a t) : Inv t := by
  cases hstep with
  | post evt => exact h.post evt
  | register listener => exact h.register listener
  | unregister listener => exact h.unregister listener
  | take evt events hnone hevents => exact h.take hnone hevents
  | call d entry hd hentry => exact h.call hd hentry
  | finish d hd hend => exact h.finish hd hend

end Inv

/-- The events are taken in the order in which they were posted, and each is delivered to all that stay. -/
def Delivers (s : System L P) : Prop := s.posted = s.taken ++ s.events ∧ ∀ d ∈ s.deliveries, d.Complete

/-- In every run, nothing is lost exactly if each listener that was passed over is itself unregistered before the
    dispatch ends, or was not there when it began. -/
theorem delivers_iff [EmptyCollection P] {as : List (Action L P)} {s : System L P} (h : Run Step init as s) :
    s.Delivers ↔ ∀ d ∈ s.deliveries, d.NoneLeftOut := by
  have hinv : Inv s := Reachable.invariant ⟨as, h⟩ inv_init fun _ _ _ hinv hstep => hinv.step hstep
  rw [Delivers, and_iff_right hinv.order]
  exact forall₂_congr hinv.complete

/-- A breakpoint whose handler deletes it, as its listener, and one more listener -/
def deletedInHandler : List (Action Nat (List Nat)) :=
  [.register 0, .register 1, .post ⟨[.stopped, .breakpoint], .target, none⟩, .take, .call, .unregister 0, .finish]

/-- The second listener is not called. -/
theorem run_deletedInHandler : ∃ s, Run Step init deletedInHandler s ∧ s.deliveries =
    [⟨⟨⟨[.stopped, .breakpoint], .target, some []⟩, 1, [⟨0, 0⟩, ⟨1, 1⟩], [⟨0, 0⟩], [⟨1, 1⟩]⟩, [⟨1, 1⟩]⟩] := by
  refine ⟨_, ((((((Run.nil.snoc (.register 0)).snoc (.register 1)).snoc (.post _)).snoc (.take _ _ rfl rfl)).snoc
    (.call _ _ rfl rfl)).snoc (.unregister 0)).snoc (.finish _ rfl rfl), rfl⟩

theorem delivers_iff_deletedInHandler : ∃ s, Run Step init deletedInHandler s ∧
    (s.Delivers ↔ ∀ d ∈ s.deliveries, d.NoneLeftOut) := by
  obtain ⟨s, hrun, -⟩ := run_deletedInHandler
  exact ⟨s, hrun, delivers_iff hrun⟩

theorem not_delivers_deletedInHandler :
    ¬∀ (as : List (Action Nat (List Nat))) (s : System Nat (List Nat)), Run Step init as s → s.Delivers := by
  intro h
  obtain ⟨s, hrun, hdeliveries⟩ := run_deletedInHandler
  have hcomplete := (h _ s hrun).2
  rw [hdeliveries] at hcomplete
  have hcount := hcomplete _ (.head _) ⟨1, 1⟩ (.tail _ (.head _)) (.head _)
  cases hcount

end System

end Avatar
