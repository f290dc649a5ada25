import Avatar.AvatarStub.Protocol
import Mathlib.Data.List.Nodup

/-! Replies are paired with commands by their order alone. Against a device that answers every command
    with one expected reply the pairing is right: between the queue of commands and the queue of
    replies there is never more than one command, and its reply is the only one on the way. -/

namespace Avatar
open Transition

def Sender.current : Sender → Option Nat
  | idle => none
  | got id | locked id | sent id | waiting id | dead id => some id
  | received id _ | notifying id _ => some id

/-- `run_send` has no command whose reply it has to deliver. -/
def Sender.Unsent : Sender → Prop
  | idle | got _ | locked _ | dead _ => True
  | sent _ | waiting _ | received _ _ | notifying _ _ => False

namespace AvatarProtocol
variable {handler : AvatarMessage → Option Operation} {s t : State} {a : Action} {id : Nat} {call : Call}
  {message : AvatarMessage}

/-! ### The device and the statement -/

/-- What a well-behaved device does: it answers each command with an expected reply, and before the
    timeout; what it sends of its own accord is asynchronous. -/
def Polite (s : State) : Action → Prop
  | .answer message => ∀ id rest call, s.toDevice = id :: rest → s.calls[id]? = some call →
      message.name ∈ call.op.expectedReplies
  | .emit message => message.name ∈ asynchronousMessages
  | .ignore | .timeout => False
  | _ => True

def PoliteStep (handler : AvatarMessage → Option Operation) (s : State) (a : Action) (t : State) : Prop :=
  Step handler s a t ∧ Polite s a

def State.replies (s : State) : List AvatarMessage :=
  s.received_synchronous_messages ++ s.toHost.filter (·.name ∉ asynchronousMessages)

/-- The reply to the call `id` is on its way to `run_send`, in its hands, or in the call's reference. -/
def Kept (s : State) (id : Nat) (reply : AvatarMessage) : Prop :=
  ((s.sender = .sent id ∨ s.sender = .waiting id) ∧ s.replies = [reply]) ∨
  (s.sender = .received id reply ∨ s.sender = .notifying id reply) ∨
  ∃ call, s.calls[id]? = some call ∧ call.ref = some reply

/-- Replies are paired with their commands: none is lost, duplicated or handed to another call. -/
structure Paired (s : State) : Prop where
  unanswered : s.toDevice.length ≤ 1
  queued : s.received_synchronous_messages.length ≤ 1
  returned : ∀ id call outcome, s.calls[id]? = some call → call.phase = .returned outcome →
    ∃ reply, (id, reply) ∈ s.answers ∧ call.ref = some reply ∧ outcome = call.op.result reply
  once : (s.answers.map Prod.fst).Nodup
  kept : ∀ id reply, (id, reply) ∈ s.answers → Kept s id reply
  own : ∀ id call reply, s.calls[id]? = some call → call.ref = some reply → (id, reply) ∈ s.answers

/-! ### The invariant -/

/-- The calls whose commands wait for `run_send` or are in its hands. -/
def State.pending (s : State) : List Nat := s.sender.current.toList ++ s.queued_commands

def CallOk (answers : List (Nat × AvatarMessage)) (id : Nat) (call : Call) : Prop :=
  match call.phase with
  | .acquired | .queued | .waiting => call.ref = none
  | .notified => ∃ reply, call.ref = some reply ∧ (id, reply) ∈ answers
  | .returned outcome => ∃ reply, call.ref = some reply ∧ (id, reply) ∈ answers ∧ outcome = call.op.result reply

def Expected (s : State) (id : Nat) (reply : AvatarMessage) : Prop :=
  ∃ call, s.calls[id]? = some call ∧ reply.name ∈ call.op.expectedReplies

def Exchange (s : State) : Prop :=
  match s.sender with
  | .idle | .got _ | .locked _ | .dead _ => s.toDevice = [] ∧ s.replies = []
  | .sent id | .waiting id =>
    (s.toDevice = [id] ∧ s.replies = [] ∧ id ∉ s.answers.map Prod.fst) ∨
    ∃ reply, s.toDevice = [] ∧ s.replies = [reply] ∧ (id, reply) ∈ s.answers ∧ Expected s id reply
  | .received id reply => s.toDevice = [] ∧ s.replies = [] ∧ (id, reply) ∈ s.answers ∧ Expected s id reply
  | .notifying id reply => s.toDevice = [] ∧ s.replies = [] ∧ (id, reply) ∈ s.answers ∧
      ∃ call, s.calls[id]? = some call ∧ call.phase = .waiting

structure Inv (s : State) : Prop where
  nodup : s.pending.Nodup
  pending : ∀ id ∈ s.pending, ∃ call, s.calls[id]? = some call ∧ (call.phase = .queued ∨ call.phase = .waiting)
  calls : ∀ id call, s.calls[id]? = some call → CallOk s.answers id call
  once : (s.answers.map Prod.fst).Nodup
  kept : ∀ id reply, (id, reply) ∈ s.answers → Kept s id reply
  exchange : Exchange s

/-! ### The table of calls -/

section Table
variable {calls : List Call} {j : Nat} {c : Call}

theorem getElem?_set_call (h : calls[id]? = some call) (c : Call) (j : Nat) :
    (calls.set id c)[j]? = if j = id then some c else calls[j]? := by
  obtain ⟨hlt, -⟩ := List.getElem?_eq_some_iff.mp h
  rw [List.getElem?_set]
  by_cases hj : id = j
  · rw [if_pos hj, if_pos (hj ▸ hlt), if_pos hj.symm]
  · rw [if_neg hj, if_neg fun h => hj h.symm]

theorem getElem?_snoc_call (calls : List Call) (c : Call) (j : Nat) :
    (calls ++ [c])[j]? = if j = calls.length then some c else calls[j]? := by
  by_cases hj : j = calls.length
  · rw [if_pos hj, hj, List.getElem?_concat_length]
  · rw [if_neg hj, List.getElem?_append]
    split
    · rfl
    · rw [List.getElem?_eq_none (by simp; omega), List.getElem?_eq_none (by omega)]

/-- A call that is there stays, with its operation; its phase and its reference may change. -/
theorem Step.keepsCall (h : Step handler s a t)
   (hc : s.calls[id]? = some call) : ∃ c, t.calls[id]? = some c ∧ c.op = call.op ∧
      (c.ref = call.ref ∨ ∃ reply, s.sender = .notifying id reply) := by
  have snoc : ∀ c, (s.calls ++ [c])[id]? = some call := fun c => by
    obtain ⟨hlt, -⟩ := List.getElem?_eq_some_iff.mp hc
    rw [List.getElem?_append_left hlt, hc]
  have set : ∀ {i call'} (c : Call), s.calls[i]? = some call' → c.op = call'.op →
      (i = id → c.ref = call'.ref ∨ ∃ reply, s.sender = .notifying id reply) →
      ∃ c', (s.calls.set i c)[id]? = some c' ∧ c'.op = call.op ∧
        (c'.ref = call.ref ∨ ∃ reply, s.sender = .notifying id reply) := by
    intro i call' c hi hop href
    rw [getElem?_set_call hi]
    by_cases hid : id = i
    · subst hid
      rw [hc] at hi
      cases hi
      exact ⟨c, if_pos rfl, hop, href rfl⟩
    · exact ⟨call, by rw [if_neg hid, hc], rfl, .inl rfl⟩
  cases h with
  | call | receiveState => exact ⟨call, snoc _, rfl, .inl rfl⟩
  | put i c hi | wait i c hi | wake i c hi => exact set _ hi rfl fun _ => .inl rfl
  | notify i c message hs hi => exact set _ hi rfl fun heq => .inr ⟨message, heq ▸ hs⟩
  | _ => exact ⟨call, hc, rfl, .inl rfl⟩

theorem Step.expected (h : Step handler s a t)
   (he : Expected s id message) : Expected t id message := by
  obtain ⟨call, hc, hm⟩ := he
  obtain ⟨c, hc', hop, -⟩ := h.keepsCall hc
  exact ⟨c, hc', hop ▸ hm⟩

end Table

/-! ### Every step keeps the invariant -/

theorem inv_init : Inv State.init where
  nodup := List.nodup_nil
  pending _ h := absurd h List.not_mem_nil
  calls _ _ h := by cases h
  once := List.nodup_nil
  kept _ _ h := absurd h List.not_mem_nil
  exchange := ⟨rfl, rfl⟩

theorem Inv.ref_none (inv : Inv s) (h : id ∈ s.pending) (hc : s.calls[id]? = some call) : call.ref = none := by
  obtain ⟨c, hc', hphase⟩ := inv.pending id h
  rw [hc] at hc'
  cases hc'
  have := inv.calls id call hc
  rcases hphase with hp | hp <;> simpa only [CallOk, hp] using this

section Kept
variable {i : Nat} {reply : AvatarMessage}

theorem Kept.in_ref (h : Kept s i reply) (hs : s.sender.Unsent) :
    ∃ call, s.calls[i]? = some call ∧ call.ref = some reply := by
  rcases h with ⟨h | h, -⟩ | (h | h) | h
  · exact (h ▸ hs : Sender.Unsent (.sent i)).elim
  · exact (h ▸ hs : Sender.Unsent (.waiting i)).elim
  · exact (h ▸ hs : Sender.Unsent (.received i reply)).elim
  · exact (h ▸ hs : Sender.Unsent (.notifying i reply)).elim
  · exact h

theorem Kept.of_awaited (h : Kept s i reply) (hs : s.sender = .sent id ∨ s.sender = .waiting id) :
    (i = id ∧ s.replies = [reply]) ∨ ∃ call, s.calls[i]? = some call ∧ call.ref = some reply := by
  rcases h with ⟨h | h, hr⟩ | (h | h) | h
  · rcases hs with hs | hs <;> rw [hs] at h <;> cases h
    exact .inl ⟨rfl, hr⟩
  · rcases hs with hs | hs <;> rw [hs] at h <;> cases h
    exact .inl ⟨rfl, hr⟩
  · rcases hs with hs | hs <;> rw [hs] at h <;> cases h
  · rcases hs with hs | hs <;> rw [hs] at h <;> cases h
  · exact .inr h

theorem Kept.of_held (h : Kept s i reply)
    (hs : s.sender = .received id message ∨ s.sender = .notifying id message) :
    (i = id ∧ reply = message) ∨ ∃ call, s.calls[i]? = some call ∧ call.ref = some reply := by
  rcases h with ⟨h | h, -⟩ | (h | h) | h
  · rcases hs with hs | hs <;> rw [hs] at h <;> cases h
  · rcases hs with hs | hs <;> rw [hs] at h <;> cases h
  · rcases hs with hs | hs <;> rw [hs] at h <;> cases h
    exact .inl ⟨rfl, rfl⟩
  · rcases hs with hs | hs <;> rw [hs] at h <;> cases h
    exact .inl ⟨rfl, rfl⟩
  · exact .inr h

end Kept

/-- A command that `run_send` has not sent has no reply. -/
theorem Inv.unanswered (inv : Inv s) (h : id ∈ s.pending) (hsender : s.sender = .got id ∨ s.sender = .locked id) :
    id ∉ s.answers.map Prod.fst := by
  intro hmem
  obtain ⟨⟨i, reply⟩, hans, rfl⟩ := List.mem_map.mp hmem
  have hunsent : s.sender.Unsent := by
    rcases hsender with hs | hs <;> rw [hs] <;> trivial
  obtain ⟨c, hc, href⟩ := (inv.kept _ _ hans).in_ref hunsent
  rw [inv.ref_none h hc] at href
  cases href

/-- The steps that only add a call or change the phase of one. -/
theorem Inv.calls_step (inv : Inv s) (hstep : Step handler s a t)
   (hsender : t.sender = s.sender) (hdevice : t.toDevice = s.toDevice) (hreplies : t.replies = s.replies)
   (hanswers : t.answers = s.answers) (hnodup : t.pending.Nodup)
   (hpending : ∀ id ∈ t.pending, ∃ call, t.calls[id]? = some call ∧ (call.phase = .queued ∨ call.phase = .waiting))
   (hcalls : ∀ id call, t.calls[id]? = some call → CallOk s.answers id call)
   (href : ∀ (id : Nat) (call : Call) reply, s.calls[id]? = some call → call.ref = some reply →
      ∃ c, t.calls[id]? = some c ∧ c.ref = some reply)
   (hwaiting : ∀ (id : Nat) (call : Call), s.calls[id]? = some call → call.phase = .waiting →
      ∃ c, t.calls[id]? = some c ∧ c.phase = .waiting) : Inv t where
  nodup := hnodup
  pending := hpending
  calls := by rwa [hanswers]
  once := by
    rw [hanswers]
    exact inv.once
  kept id reply hmem := by
    rw [hanswers] at hmem
    rcases inv.kept id reply hmem with h | h | ⟨call, hc, hr⟩
    · exact .inl (by rwa [hsender, hreplies])
    · exact .inr (.inl (by rwa [hsender]))
    · exact .inr (.inr (href id call reply hc hr))
  exchange := by
    have hex := inv.exchange
    unfold Exchange at hex ⊢
    rw [hsender, hdevice, hreplies, hanswers]
    cases hs : s.sender with
    | idle | got | locked | dead => rwa [hs] at hex
    | sent id | waiting id =>
      rw [hs] at hex
      rcases hex with h | ⟨reply, h1, h2, h3, h4⟩
      · exact .inl h
      · exact .inr ⟨reply, h1, h2, h3, hstep.expected h4⟩
    | received id reply =>
      rw [hs] at hex
      obtain ⟨h1, h2, h3, h4⟩ := hex
      exact ⟨h1, h2, h3, hstep.expected h4⟩
    | notifying id reply =>
      rw [hs] at hex
      obtain ⟨h1, h2, h3, call, hc, hp⟩ := hex
      exact ⟨h1, h2, h3, hwaiting id call hc hp⟩

theorem Inv.add_step (inv : Inv s) (hstep : Step handler s a t)
    {c : Call} (ht : t.calls = s.calls ++ [c]) (hc : c.phase = .acquired) (hr : c.ref = none)
   (hsender : t.sender = s.sender) (hdevice : t.toDevice = s.toDevice) (hreplies : t.replies = s.replies)
   (hanswers : t.answers = s.answers) (hqueue : t.queued_commands = s.queued_commands) : Inv t := by
  have hpending : t.pending = s.pending := by
    rw [State.pending, hsender, hqueue]
    rfl
  have hold : ∀ {id : Nat} {call : Call}, s.calls[id]? = some call → t.calls[id]? = some call := fun {id call} h => by
    obtain ⟨hlt, -⟩ := List.getElem?_eq_some_iff.mp h
    rw [ht, List.getElem?_append_left hlt, h]
  refine inv.calls_step hstep hsender hdevice hreplies hanswers (hpending ▸ inv.nodup) ?_ ?_
    (fun id call reply h href => ⟨call, hold h, href⟩) (fun id call h hp => ⟨call, hold h, hp⟩)
  · intro id hid
    rw [hpending] at hid
    obtain ⟨call, h, hp⟩ := inv.pending id hid
    exact ⟨call, hold h, hp⟩
  · intro id call h
    rw [ht, getElem?_snoc_call] at h
    split at h
    · cases h
      simp only [CallOk, hc, hr]
    · exact inv.calls id call h

theorem Inv.phase_step (inv : Inv s) (hstep : Step handler s a t)
    {c : Call} (hcall : s.calls[id]? = some call) (ht : t.calls = s.calls.set id c) (href : c.ref = call.ref)
   (hphase : call.phase ≠ .waiting) (hok : CallOk s.answers id c) (hsender : t.sender = s.sender)
   (hdevice : t.toDevice = s.toDevice) (hreplies : t.replies = s.replies) (hanswers : t.answers = s.answers)
   (hnodup : t.pending.Nodup) (hpending : ∀ i ∈ t.pending, i ∈ s.pending ∨ i = id)
   (hid : id ∈ t.pending → c.phase = .queued ∨ c.phase = .waiting) : Inv t := by
  have hget : ∀ i : Nat, t.calls[i]? = if i = id then some c else s.calls[i]? := fun i => by
    rw [ht, getElem?_set_call hcall]
  refine inv.calls_step hstep hsender hdevice hreplies hanswers hnodup ?_ ?_ ?_ ?_
  · intro i hi
    by_cases heq : i = id
    · exact ⟨c, by rw [hget, if_pos heq], hid (heq ▸ hi)⟩
    · obtain ⟨call', h, hp⟩ := inv.pending i ((hpending i hi).resolve_right heq)
      exact ⟨call', by rw [hget, if_neg heq, h], hp⟩
  · intro i call' h
    rw [hget] at h
    split at h
    · rename_i heq
      cases h
      exact heq ▸ hok
    · exact inv.calls i call' h
  · intro i call' reply h hr
    by_cases heq : i = id
    · rw [heq, hcall] at h
      cases h
      exact ⟨c, by rw [hget, if_pos heq], href.trans hr⟩
    · exact ⟨call', by rw [hget, if_neg heq, h], hr⟩
  · intro i call' h hp
    by_cases heq : i = id
    · rw [heq, hcall] at h
      cases h
      exact absurd hp hphase
    · exact ⟨call', by rw [hget, if_neg heq, h], hp⟩

theorem Inv.sender_step (inv : Inv s) (hcalls : t.calls = s.calls) (hanswers : t.answers = s.answers)
   (hpending : t.pending = s.pending)
   (hkept : ∀ id reply, (id, reply) ∈ s.answers → Kept s id reply → Kept t id reply) (hexchange : Exchange t) :
    Inv t where
  nodup := hpending ▸ inv.nodup
  pending id h := by
    rw [hcalls]
    exact inv.pending id (hpending ▸ h)
  calls := by
    rw [hcalls, hanswers]
    exact inv.calls
  once := by
    rw [hanswers]
    exact inv.once
  kept id reply h := by
    rw [hanswers] at h
    exact hkept id reply h (inv.kept id reply h)
  exchange := hexchange

/-- The steps of `run_send` before its command is on the link. -/
theorem Inv.unsent_step (inv : Inv s) (hs : s.sender.Unsent) (hcalls : t.calls = s.calls)
   (hanswers : t.answers = s.answers) (hpending : t.pending = s.pending) (hexchange : Exchange t) : Inv t := by
  refine inv.sender_step hcalls hanswers hpending (fun i reply _ h => .inr (.inr ?_)) hexchange
  rw [hcalls]
  exact h.in_ref hs

/-- The steps that move messages along the link without changing which replies are on the way. -/
theorem Inv.wire_step (inv : Inv s) (hcalls : t.calls = s.calls) (hanswers : t.answers = s.answers)
   (hsender : t.sender = s.sender) (hqueue : t.queued_commands = s.queued_commands)
   (hdevice : t.toDevice = s.toDevice) (hreplies : t.replies = s.replies) : Inv t := by
  have hexchange : Exchange t ↔ Exchange s := by
    simp only [Exchange, Expected, hsender, hdevice, hreplies, hanswers, hcalls]
  refine inv.sender_step hcalls hanswers ?_ (fun id reply _ h => ?_) (hexchange.mpr inv.exchange)
  · rw [State.pending, hsender, hqueue]
    rfl
  · rwa [Kept, hsender, hreplies, hcalls]

theorem notMem_asynchronousMessages {op : Operation} {name : String} (h : name ∈ op.expectedReplies) :
    name ∉ asynchronousMessages := by
  simp only [Operation.expectedReplies, List.mem_cons, List.not_mem_nil, or_false] at h
  rcases h with rfl | rfl
  · cases op <;> simp [Operation.reply, asynchronousMessages]
  · simp [asynchronousMessages]

theorem CallOk.mono {answers answers' : List (Nat × AvatarMessage)} (hsub : answers ⊆ answers')
   (h : CallOk answers id call) : CallOk answers' id call := by
  unfold CallOk at h ⊢
  cases hp : call.phase with
  | acquired | queued | waiting => rwa [hp] at h
  | notified =>
    rw [hp] at h
    obtain ⟨reply, href, hmem⟩ := h
    exact ⟨reply, href, hsub hmem⟩
  | returned outcome =>
    rw [hp] at h
    obtain ⟨reply, href, hmem, hout⟩ := h
    exact ⟨reply, href, hsub hmem, hout⟩

theorem replies_snoc (received toHost : List AvatarMessage) (hm : message.name ∉ asynchronousMessages) :
    received ++ (toHost ++ [message]).filter (·.name ∉ asynchronousMessages) =
      (received ++ toHost.filter (·.name ∉ asynchronousMessages)) ++ [message] := by
  rw [List.filter_append, List.filter_cons_of_pos (by simpa using hm), List.append_assoc]
  rfl

/-- Only the command that `run_send` waits for can be with the device. -/
theorem Inv.awaited {rest : List Nat} (inv : Inv s) (hd : s.toDevice = id :: rest) :
    (s.sender = .sent id ∨ s.sender = .waiting id) ∧ rest = [] ∧ s.replies = [] ∧
      id ∉ s.answers.map Prod.fst := by
  have hex := inv.exchange
  unfold Exchange at hex
  cases hs : s.sender with
  | idle | got | locked | dead | received | notifying =>
    rw [hs] at hex
    rw [hex.1] at hd
    cases hd
  | sent i | waiting i =>
    rw [hs] at hex
    rcases hex with ⟨hdevice, hreplies, hnot⟩ | ⟨reply, hdevice, -⟩
    · rw [hdevice] at hd
      cases hd
      first
      | exact ⟨.inl rfl, rfl, hreplies, hnot⟩
      | exact ⟨.inr rfl, rfl, hreplies, hnot⟩
    · rw [hdevice] at hd
      cases hd

theorem Inv.answer_step {rest : List Nat} (inv : Inv s) (hd : s.toDevice = id :: rest)
   (hexpected : ∀ call, s.calls[id]? = some call → message.name ∈ call.op.expectedReplies) :
    Inv { s with
      toDevice := rest
      toHost := s.toHost ++ [message]
      answers := s.answers ++ [(id, message)] } := by
  obtain ⟨hsender, hrest, hreplies, hnot⟩ := inv.awaited hd
  have hpend : id ∈ s.pending := by
    rw [State.pending]
    rcases hsender with hs | hs <;> rw [hs] <;> exact List.mem_append_left _ (.head _)
  obtain ⟨call, hc, -⟩ := inv.pending id hpend
  have hexp := hexpected call hc
  have hone : s.received_synchronous_messages ++
      (s.toHost ++ [message]).filter (·.name ∉ asynchronousMessages) = [message] := by
    rw [replies_snoc _ _ (notMem_asynchronousMessages hexp)]
    exact congrArg (· ++ [message]) hreplies
  have hmem : (id, message) ∈ s.answers ++ [(id, message)] := List.mem_append_right _ (.head _)
  refine ⟨inv.nodup, inv.pending, fun i c h => (inv.calls i c h).mono (List.subset_append_left ..), ?_,
    fun i reply h => ?_, ?_⟩
  · show ((s.answers ++ [(id, message)]).map Prod.fst).Nodup
    rw [List.map_append]
    refine List.nodup_append.mpr ⟨inv.once, List.nodup_singleton _, fun i hi j hj heq => hnot ?_⟩
    have hj : j = id := List.mem_singleton.mp hj
    exact hj ▸ heq ▸ hi
  · rcases List.mem_append.mp h with h | h
    · rcases (inv.kept i reply h).of_awaited hsender with ⟨-, h⟩ | h
      · rw [hreplies] at h
        cases h
      · exact .inr (.inr h)
    · cases List.mem_singleton.mp h
      exact .inl ⟨hsender, hone⟩
  · have : Expected s id message := ⟨call, hc, hexp⟩
    unfold Exchange
    rcases hsender with hs | hs
    · simp only [hs]
      exact .inr ⟨message, hrest, hone, hmem, this⟩
    · simp only [hs]
      exact .inr ⟨message, hrest, hone, hmem, this⟩

theorem Inv.notify_step (inv : Inv s) (hs : s.sender = .notifying id message) (hc : s.calls[id]? = some call) :
    Inv { s with
      calls := s.calls.set id { call with phase := call.phase.notify, ref := some message }
      sender := .idle } := by
  have hex := inv.exchange
  rw [Exchange, hs] at hex
  obtain ⟨hdevice, hreplies, hans, c, hc', hp⟩ := hex
  rw [hc] at hc'
  cases hc'
  have hpending : s.pending = id :: s.queued_commands := by
    rw [State.pending, hs]
    rfl
  have hnodup := inv.nodup
  rw [hpending] at hnodup
  obtain ⟨hnot, hnodup⟩ := List.nodup_cons.mp hnodup
  refine ⟨hnodup, fun i hi => ?_, fun i c h => ?_, inv.once, fun i reply hmem => .inr (.inr ?_), hdevice, hreplies⟩
  · obtain ⟨c, h, hphase⟩ := inv.pending i (hpending ▸ List.mem_cons_of_mem _ hi)
    have hne : i ≠ id := fun heq => hnot (heq ▸ hi)
    exact ⟨c, by rw [getElem?_set_call hc, if_neg hne, h], hphase⟩
  · rw [getElem?_set_call hc] at h
    split at h
    · rename_i heq
      cases h
      simp only [CallOk, hp, Phase.notify]
      exact ⟨message, rfl, heq ▸ hans⟩
    · exact inv.calls i c h
  · rcases (inv.kept i reply hmem).of_held (.inr hs) with ⟨rfl, rfl⟩ | ⟨c, h, href⟩
    · exact ⟨_, by rw [getElem?_set_call hc, if_pos rfl], rfl⟩
    · -- Another call, since the reference of this one is still empty.
      have hne : i ≠ id := fun heq => by
        rw [inv.ref_none (heq ▸ hpending ▸ .head _) h] at href
        cases href
      exact ⟨c, by rw [getElem?_set_call hc, if_neg hne, h], href⟩

theorem Inv.step (inv : Inv s) (h : PoliteStep handler s a t) : Inv t := by
  obtain ⟨hstep, hpolite⟩ := h
  have hex := inv.exchange
  unfold Exchange at hex
  cases id hstep with
  | call op command => exact inv.add_step hstep rfl rfl rfl rfl rfl rfl rfl rfl
  | put id call hc hp =>
    have hok := inv.calls id call hc
    simp only [CallOk, hp] at hok
    have hnot : id ∉ s.pending := fun hmem => by
      obtain ⟨c, hc', hphase⟩ := inv.pending id hmem
      rw [hc] at hc'
      cases hc'
      rw [hp] at hphase
      rcases hphase with h | h <;> cases h
    refine inv.phase_step hstep hc rfl rfl (by rw [hp]; nofun) hok rfl rfl rfl rfl ?_ ?_ fun _ => .inl rfl
    · show (s.sender.current.toList ++ (s.queued_commands ++ [id])).Nodup
      rw [← List.append_assoc]
      exact List.nodup_append.mpr ⟨inv.nodup, List.nodup_singleton _, fun i hi j hj heq =>
        hnot (List.mem_singleton.mp hj ▸ heq ▸ hi)⟩
    · intro i (hi : i ∈ s.sender.current.toList ++ (s.queued_commands ++ [id]))
      rw [← List.append_assoc] at hi
      rcases List.mem_append.mp hi with hi | hi
      · exact .inl hi
      · exact .inr (List.mem_singleton.mp hi)
  | wait id call hc hp =>
    have hok := inv.calls id call hc
    simp only [CallOk, hp] at hok
    exact inv.phase_step hstep hc rfl rfl (by rw [hp]; nofun) hok rfl rfl rfl rfl inv.nodup
      (fun _ h => .inl h) fun _ => .inr rfl
  | wake id call hc hp hcv =>
    have hok := inv.calls id call hc
    simp only [CallOk, hp] at hok
    obtain ⟨reply, href, hmem⟩ := hok
    have houtcome : call.outcome = call.op.result reply := by
      simp only [Call.outcome, href]
    refine inv.phase_step hstep hc rfl rfl (by rw [hp]; nofun) ⟨reply, href, hmem, houtcome⟩ rfl rfl rfl rfl inv.nodup
      (fun _ h => .inl h) fun hid => ?_
    rw [inv.ref_none hid hc] at href
    cases href
  | get id rest hs hq =>
    rw [hs] at hex
    refine inv.unsent_step (by rw [hs]; trivial) rfl rfl ?_ hex
    simp only [State.pending, hs, hq]
    rfl
  | lock id hs hl =>
    rw [hs] at hex
    refine inv.unsent_step (by rw [hs]; trivial) rfl rfl ?_ hex
    simp only [State.pending, hs]
    rfl
  | send id call body hs hc hbody =>
    rw [hs] at hex
    obtain ⟨hdevice, hreplies⟩ := hex
    have hpend : id ∈ s.pending := by
      rw [State.pending, hs]
      exact List.mem_append_left _ (.head _)
    refine inv.unsent_step (by rw [hs]; trivial) rfl rfl ?_ (.inl ⟨?_, hreplies, inv.unanswered hpend (.inr hs)⟩)
    · simp only [State.pending, hs]
      rfl
    · simp only [hdevice, List.nil_append]
  | sendRaises id call e hs hc hbody =>
    rw [hs] at hex
    refine inv.unsent_step (by rw [hs]; trivial) rfl rfl ?_ hex
    simp only [State.pending, hs]
    rfl
  | unlock id hs =>
    rw [hs] at hex
    refine inv.sender_step rfl rfl ?_ ?_ hex
    · simp only [State.pending, hs]
      rfl
    · intro i reply _ h
      rcases h.of_awaited (.inl hs) with ⟨rfl, hr⟩ | h
      · exact .inl ⟨.inr rfl, hr⟩
      · exact .inr (.inr h)
  | reply id message rest hs hr =>
    rw [hs] at hex
    -- The reply that is taken is the only one on the way.
    rcases hex with ⟨-, hnone, -⟩ | ⟨reply, hdevice, hone, hans, hexp⟩
    · rw [State.replies, hr] at hnone
      cases hnone
    have hcons : message :: (rest ++ s.toHost.filter (·.name ∉ asynchronousMessages)) = [reply] := by
      rw [← hone, State.replies, hr]
      rfl
    injection hcons with hmessage hrest
    subst hmessage
    refine inv.sender_step rfl rfl ?_ ?_ ⟨hdevice, hrest, hans, hexp⟩
    · simp only [State.pending, hs]
      rfl
    · intro i reply _ h
      rcases h.of_awaited (.inr hs) with ⟨rfl, hr⟩ | h
      · rw [hone] at hr
        cases hr
        exact .inr (.inl (.inl rfl))
      · exact .inr (.inr h)
  | timeout => exact hpolite.elim
  | unexpected id call message hs hc hm =>
    rw [hs] at hex
    obtain ⟨-, -, -, c, hc', hexp⟩ := hex
    rw [hc] at hc'
    cases hc'
    exact absurd hexp hm
  | acquire id call message hs hc hm hcv =>
    rw [hs] at hex
    obtain ⟨hdevice, hreplies, hans, -⟩ := hex
    have hpend : id ∈ s.pending := by
      rw [State.pending, hs]
      exact List.mem_append_left _ (.head _)
    have hwaiting : call.phase = .waiting := by
      obtain ⟨c, hc', hp | hp⟩ := inv.pending id hpend
      · rw [hc] at hc'
        cases hc'
        rw [hp] at hcv
        cases hcv
      · rw [hc] at hc'
        cases hc'
        exact hp
    refine inv.sender_step rfl rfl ?_ ?_ ⟨hdevice, hreplies, hans, call, hc, hwaiting⟩
    · simp only [State.pending, hs]
      rfl
    · intro i reply _ h
      rcases h.of_held (.inl hs) with ⟨rfl, rfl⟩ | h
      · exact .inr (.inl (.inr rfl))
      · exact .inr (.inr h)
  | notify id call message hs hc => exact inv.notify_step hs hc
  | receiveSynchronous message rest hr hw hm =>
    refine inv.wire_step rfl rfl rfl rfl rfl ?_
    simp only [State.replies, hw]
    rw [List.filter_cons_of_pos (by simpa using hm), List.append_assoc]
    rfl
  | receiveAsynchronous message rest hr hw hm hh =>
    refine inv.wire_step rfl rfl rfl rfl rfl ?_
    simp only [State.replies, hw]
    rw [List.filter_cons_of_neg (by simpa using hm)]
  | receiveState message rest op command hr hw hm hh =>
    have hasync : message.name ∈ asynchronousMessages := hm ▸ .head _
    refine inv.add_step hstep rfl rfl rfl rfl rfl ?_ rfl rfl
    simp only [State.replies, hw]
    rw [List.filter_cons_of_neg (by simpa using hasync)]
  | resume id call outcome hr hc hp => exact inv.sender_step rfl rfl rfl (fun _ _ _ h => h) inv.exchange
  | answer id rest message hd => exact inv.answer_step hd fun call hc => hpolite id rest call hd hc
  | ignore => exact hpolite.elim
  | emit message =>
    refine inv.wire_step rfl rfl rfl rfl rfl ?_
    have hm : message.name ∈ asynchronousMessages := hpolite
    simp only [State.replies, List.filter_append]
    rw [List.filter_cons_of_neg (by simpa using hm), List.filter_nil, List.append_nil]

theorem inv_reachable (h : Reachable (PoliteStep handler) State.init s) : Inv s :=
  h.invariant inv_init fun _ _ _ => Inv.step

/-! ### Pairing -/

theorem Inv.toDevice_length (inv : Inv s) : s.toDevice.length ≤ 1 ∧ s.replies.length ≤ 1 := by
  have hex := inv.exchange
  unfold Exchange at hex
  cases hs : s.sender with
  | idle | got | locked | dead =>
    rw [hs] at hex
    obtain ⟨h1, h2⟩ := hex
    rw [h1, h2]
    exact ⟨Nat.zero_le _, Nat.zero_le _⟩
  | sent id | waiting id =>
    rw [hs] at hex
    rcases hex with ⟨h1, h2, -⟩ | ⟨reply, h1, h2, -⟩
    · rw [h1, h2]
      exact ⟨Nat.le_refl _, Nat.zero_le _⟩
    · rw [h1, h2]
      exact ⟨Nat.zero_le _, Nat.le_refl _⟩
  | received id reply | notifying id reply =>
    rw [hs] at hex
    obtain ⟨h1, h2, -⟩ := hex
    rw [h1, h2]
    exact ⟨Nat.zero_le _, Nat.zero_le _⟩

/-- In every reachable state, whatever the interleaving, replies are paired with their commands. The handler
    of asynchronous messages may call operations of its own, or none. -/
theorem reply_pairing (h : Reachable (PoliteStep handler) State.init s) : Paired s := by
  have inv := inv_reachable h
  obtain ⟨hdevice, hreplies⟩ := inv.toDevice_length
  refine ⟨hdevice, ?_, fun id call outcome hc hp => ?_, inv.once, inv.kept, fun id call reply hc href => ?_⟩
  · rw [State.replies, List.length_append] at hreplies
    omega
  · have hok := inv.calls id call hc
    simp only [CallOk, hp] at hok
    obtain ⟨reply, href, hmem, hout⟩ := hok
    exact ⟨reply, hmem, href, hout⟩
  · have hok := inv.calls id call hc
    unfold CallOk at hok
    cases hp : call.phase with
    | acquired | queued | waiting =>
      rw [hp] at hok
      rw [hok] at href
      cases href
    | notified =>
      rw [hp] at hok
      obtain ⟨m, hm, hmem⟩ := hok
      rw [hm] at href
      cases href
      exact hmem
    | returned outcome =>
      rw [hp] at hok
      obtain ⟨m, hm, hmem, -⟩ := hok
      rw [hm] at href
      cases href
      exact hmem

/-! ### A run -/

/-- Nothing is under way. -/
structure State.Quiet (s : State) : Prop where
  queue : s.queued_commands = []
  sender : s.sender = .idle
  lock : s.send_lock = false
  toDevice : s.toDevice = []
  toHost : s.toHost = []
  replies : s.received_synchronous_messages = []
  receiver : s.receiver = .running

theorem quiet_init : State.init.Quiet := ⟨rfl, rfl, rfl, rfl, rfl, rfl, rfl⟩

/-- One operation from its call to its return -/
theorem exchange_reachable (h : s.Quiet) (op : Operation) (command reply : AvatarMessage) (body : List Bytes.Byte)
    (hcommand : op.message = .ok command) (hbody : command.serialize = .ok body)
    (hreply : reply.name ∈ op.expectedReplies) :
    Reachable (PoliteStep handler) s { s with
      calls := s.calls ++ [⟨op, command, .returned (op.result reply), some reply⟩]
      answers := s.answers ++ [(s.calls.length, reply)] } := by
  obtain ⟨calls, queue, sender, lock, toDevice, toHost, replies, receiver, answers⟩ := s
  obtain ⟨rfl, rfl, rfl, rfl, rfl, rfl, rfl⟩ := h
  have hget : ∀ c : Call, (calls ++ [c])[calls.length]? = some c := fun _ => List.getElem?_concat_length
  have hset : ∀ c c' : Call, (calls ++ [c]).set calls.length c' = calls ++ [c'] := fun c c' => by
    rw [List.set_append_right _ _ (Nat.le_refl _), Nat.sub_self]
    rfl
  have tail : ∀ {s t u : State} (a : Action), Reachable (PoliteStep handler) s t → Step handler t a u →
      Polite t a → Reachable (PoliteStep handler) s u := fun _ h hstep hpolite => h.tail ⟨hstep, hpolite⟩
  have h : Reachable (PoliteStep handler) ⟨calls, [], .idle, false, [], [], [], .running, answers⟩ _ := .refl
  replace h := tail (.call _) h (.call op command hcommand) trivial
  replace h := tail (.put _) h (.put calls.length _ (hget _) rfl) trivial
  simp only [hset] at h
  replace h := tail (.wait _) h (.wait calls.length _ (hget _) rfl) trivial
  simp only [hset] at h
  replace h := tail .get h (.get calls.length [] rfl rfl) trivial
  replace h := tail .lock h (.lock calls.length rfl rfl) trivial
  replace h := tail .send h (.send calls.length _ body rfl (hget _) hbody) trivial
  replace h := tail .unlock h (.unlock calls.length rfl) trivial
  replace h := tail (.answer reply) h (.answer calls.length [] reply rfl) fun id rest call hd hc => by
    cases hd
    cases (hget _).symm.trans hc
    exact hreply
  replace h := tail (.receive reply) h
    (.receiveSynchronous reply [] rfl rfl (notMem_asynchronousMessages hreply)) trivial
  replace h := tail .reply h (.reply calls.length reply [] rfl rfl) trivial
  replace h := tail .acquire h (.acquire calls.length _ reply rfl (hget _) hreply rfl) trivial
  replace h := tail .notify h (.notify calls.length _ reply rfl (hget _)) trivial
  simp only [hset] at h
  replace h := tail (.wake _) h (.wake calls.length _ (hget _) rfl fun _ hs => by cases hs) trivial
  simp only [hset] at h
  exact h

/-- The command that reads `r15` and a reply to it. -/
def getPc : AvatarMessage := ⟨0x03, "AVATAR_RPC_HTD_GET_REGISTER", [("register", .int 15)]⟩

def pcReply : AvatarMessage := ⟨0x91, "AVATAR_RPC_DTH_REPLY_GET_REGISTER", [("value", .int 0x1000)]⟩

def pcState : State :=
  { State.init with
    calls := [⟨.getRegister 15, getPc, .returned (.ok (some (.int 0x1000))), some pcReply⟩]
    answers := [(0, pcReply)] }

theorem pcState_reachable : Reachable (PoliteStep fun _ => none) State.init pcState :=
  exchange_reachable quiet_init (.getRegister 15) getPc pcReply [0x03, 0x0F] rfl rfl (.head _)

theorem pcState_paired : Paired pcState := reply_pairing pcState_reachable

end AvatarProtocol

end Avatar
