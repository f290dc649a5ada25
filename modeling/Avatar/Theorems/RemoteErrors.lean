import Avatar.Lib.StateExcept
import Avatar.Theorems.ReplyPairing

/-! What an error reply of the device does to its caller. Whatever the device sends and however the threads
    interleave, a call that has returned was woken once, by a reply that it expects, and its outcome is what the
    operation makes of that reply. All operations raise for an error, apart from the one that does not look. -/

namespace Avatar
open Transition

/-- The call has been notified. -/
def Phase.Awake : Phase → Prop
  | notified | returned _ => True
  | acquired | queued | waiting => False

def Operation.IsSetRegister : Operation → Prop
  | setRegister .. => True
  | _ => False

/-- The outcome of an operation tells its caller about the reply: an error is raised with its code, and the operation
    only returns on its reply that is not an error. -/
structure Operation.Reports (op : Operation) (reply : AvatarMessage) (outcome : Except OperationError (Option FieldValue)) :
    Prop where
  raises : reply.name = "AVATAR_RPC_DTH_REPLY_ERROR" → ∀ e, reply.attr "error" = .ok e →
    outcome = .error (.avatarRemoteError e)
  returns : ∀ v, outcome = .ok v → reply.name = op.reply

namespace Operation
variable {op : Operation} {reply : AvatarMessage}

theorem reply_ne_error : op.reply ≠ "AVATAR_RPC_DTH_REPLY_ERROR" := by
  cases op <;> simp [Operation.reply]

theorem raiseRemoteError_error {e : FieldValue} (hname : reply.name = "AVATAR_RPC_DTH_REPLY_ERROR")
    (he : reply.attr "error" = .ok e) : raiseRemoteError reply = .error (.avatarRemoteError e) := by
  simp only [raiseRemoteError, hname, if_true, he]

/-- Only a reply that is not an error passes the check. -/
theorem raiseRemoteError_ok (h : raiseRemoteError reply = .ok ()) : reply.name ≠ "AVATAR_RPC_DTH_REPLY_ERROR" := by
  intro hname
  rw [raiseRemoteError, if_pos hname] at h
  split at h <;> cases h

/-- An operation whose outcome begins with the check reports the reply. -/
theorem reports_of_check {rest : Except OperationError (Option FieldValue)} (hexpected : reply.name ∈ op.expectedReplies) :
    op.Reports reply (raiseRemoteError reply >>= fun _ => rest) where
  raises hname e he := by
    rw [raiseRemoteError_error hname he]
    rfl
  returns v hv := by
    obtain ⟨⟨⟩, hcheck, -⟩ := StateExcept.exists_of_bind_ok hv
    rcases List.mem_cons.mp hexpected with h | h
    · exact h
    · exact absurd (List.mem_singleton.mp h) (raiseRemoteError_ok hcheck)

theorem result_reports_iff (hexpected : reply.name ∈ op.expectedReplies) :
    op.Reports reply (op.result reply) ↔ ¬(op.IsSetRegister ∧ reply.name = "AVATAR_RPC_DTH_REPLY_ERROR") := by
  cases op with
  | setRegister register value =>
    constructor
    · rintro hreports ⟨-, hname⟩
      exact reply_ne_error ((hreports.returns none rfl).symm.trans hname)
    · intro hnot
      have hname : reply.name ≠ "AVATAR_RPC_DTH_REPLY_ERROR" := fun hname => hnot ⟨trivial, hname⟩
      refine ⟨fun h => absurd h hname, fun _ _ => ?_⟩
      rcases List.mem_cons.mp hexpected with h | h
      · exact h
      · exact absurd (List.mem_singleton.mp h) hname
  | getRegister | readMemory | readMemoryUntyped | writeMemory | writeMemoryUntyped | executeCodelet | cont =>
    exact iff_of_true (reports_of_check hexpected) fun h => h.1

end Operation

namespace AvatarProtocol
variable {handler : AvatarMessage → Option Operation} {s t : State} {a : Action} {id : Nat} {call c : Call}
  {message : AvatarMessage} {outcome : Except OperationError (Option FieldValue)}

/-! ### One reply for each call -/

/-- An expected reply is in the reference, and a call that has returned has made its outcome of it. -/
def HasReply (call : Call) : Prop :=
  ∃ reply, call.ref = some reply ∧ reply.name ∈ call.op.expectedReplies ∧
    ∀ outcome, call.phase = .returned outcome → outcome = call.op.result reply

/-- A call is notified at most once, and with a reply that it expects. -/
structure Delivery (s : State) : Prop where
  nodup : s.pending.Nodup
  pending : ∀ id ∈ s.pending, ∃ call, s.calls[id]? = some call ∧ (call.phase = .queued ∨ call.phase = .waiting)
  notifying : ∀ id reply, s.sender = .notifying id reply →
    ∃ call, s.calls[id]? = some call ∧ call.phase = .waiting ∧ reply.name ∈ call.op.expectedReplies
  awake : ∀ (id : Nat) call, s.calls[id]? = some call → call.phase.Awake → HasReply call

theorem delivery_init : Delivery State.init where
  nodup := List.nodup_nil
  pending _ h := absurd h List.not_mem_nil
  notifying _ _ h := by cases h
  awake _ _ h := by cases h

/-- The steps that leave the calls alone. -/
theorem Delivery.sender_step (inv : Delivery s) (hcalls : t.calls = s.calls) (hpending : t.pending.Sublist s.pending)
    (hnotifying : ∀ id reply, t.sender = .notifying id reply →
      ∃ call, s.calls[id]? = some call ∧ call.phase = .waiting ∧ reply.name ∈ call.op.expectedReplies) :
    Delivery t where
  nodup := inv.nodup.sublist hpending
  pending id h := by
    rw [hcalls]
    exact inv.pending id (hpending.subset h)
  notifying id reply h := by
    rw [hcalls]
    exact hnotifying id reply h
  awake := by
    rw [hcalls]
    exact inv.awake

theorem Delivery.add_step (inv : Delivery s) (ht : t.calls = s.calls ++ [c]) (hphase : c.phase = .acquired)
    (hsender : t.sender = s.sender) (hqueue : t.queued_commands = s.queued_commands) : Delivery t := by
  have hpending : t.pending = s.pending := by rw [State.pending, State.pending, hsender, hqueue]
  have hold : ∀ {id : Nat} {call : Call}, s.calls[id]? = some call → t.calls[id]? = some call := by
    intro id call h
    obtain ⟨hlt, -⟩ := List.getElem?_eq_some_iff.mp h
    rw [ht, List.getElem?_append_left hlt, h]
  refine ⟨hpending ▸ inv.nodup, fun id hid => ?_, fun id reply h => ?_, fun id call h hawake => ?_⟩
  · obtain ⟨call, h, hp⟩ := inv.pending id (hpending ▸ hid)
    exact ⟨call, hold h, hp⟩
  · obtain ⟨call, hc, hp⟩ := inv.notifying id reply (hsender ▸ h)
    exact ⟨call, hold hc, hp⟩
  · rw [ht, getElem?_snoc_call] at h
    split at h
    · cases h
      rw [hphase] at hawake
      exact hawake.elim
    · exact inv.awake id call h hawake

/-- The steps of a caller that does not wait. -/
theorem Delivery.phase_step (inv : Delivery s) (hcall : s.calls[id]? = some call) (ht : t.calls = s.calls.set id c)
    (hphase : call.phase ≠ .waiting) (hawake : c.phase.Awake → HasReply c) (hsender : t.sender = s.sender)
    (hnodup : t.pending.Nodup) (hpending : ∀ i ∈ t.pending, i ∈ s.pending ∨ i = id)
    (hid : id ∈ t.pending → c.phase = .queued ∨ c.phase = .waiting) : Delivery t := by
  have hget : ∀ i : Nat, t.calls[i]? = if i = id then some c else s.calls[i]? := fun i => by
    rw [ht, getElem?_set_call hcall]
  refine ⟨hnodup, fun i hi => ?_, fun i reply h => ?_, fun i call' h hawake' => ?_⟩
  · by_cases heq : i = id
    · exact ⟨c, by rw [hget, if_pos heq], hid (heq ▸ hi)⟩
    · obtain ⟨call', h, hp⟩ := inv.pending i ((hpending i hi).resolve_right heq)
      exact ⟨call', by rw [hget, if_neg heq, h], hp⟩
  · obtain ⟨call', hc, hp, hname⟩ := inv.notifying i reply (hsender ▸ h)
    have hne : i ≠ id := by
      rintro rfl
      rw [hcall] at hc
      cases hc
      exact hphase hp
    exact ⟨call', by rw [hget, if_neg hne, hc], hp, hname⟩
  · rw [hget] at h
    split at h
    · cases h
      exact hawake hawake'
    · exact inv.awake i call' h hawake'

theorem Delivery.notify_step (inv : Delivery s) (hs : s.sender = .notifying id message)
    (hc : s.calls[id]? = some call) :
    Delivery { s with
      calls := s.calls.set id { call with phase := call.phase.notify, ref := some message }
      sender := .idle } := by
  obtain ⟨c, hc', hp, hname⟩ := inv.notifying id message hs
  rw [hc] at hc'
  cases hc'
  have hpending : s.pending = id :: s.queued_commands := by rw [State.pending, hs]; rfl
  obtain ⟨hnot, hnodup⟩ := List.nodup_cons.mp (hpending ▸ inv.nodup)
  refine ⟨hnodup, fun i hi => ?_, fun i reply h => (by cases h), fun i c h hawake => ?_⟩
  · obtain ⟨c, h, hphase⟩ := inv.pending i (hpending ▸ List.mem_cons_of_mem _ hi)
    have hne : i ≠ id := fun heq => hnot (heq ▸ hi)
    exact ⟨c, by rw [getElem?_set_call hc, if_neg hne, h], hphase⟩
  · rw [getElem?_set_call hc] at h
    split at h
    · cases h
      refine ⟨message, rfl, hname, fun outcome h => ?_⟩
      rw [hp] at h
      cases h
    · exact inv.awake i c h hawake

/-- A command that is queued or on its way belongs to a call that waits for its reply. -/
theorem Delivery.not_mem_pending (inv : Delivery s) (hc : s.calls[id]? = some call)
    (hphase : call.phase ≠ .queued ∧ call.phase ≠ .waiting) : id ∉ s.pending := by
  intro hmem
  obtain ⟨c, hc', hp⟩ := inv.pending id hmem
  rw [hc] at hc'
  cases hc'
  exact hp.elim hphase.1 hphase.2

theorem Delivery.step (inv : Delivery s) (h : Step handler s a t) : Delivery t := by
  have same : ∀ {t : State}, t.calls = s.calls → t.sender = s.sender → t.queued_commands = s.queued_commands →
      Delivery t := by
    intro t hcalls hsender hqueue
    refine inv.sender_step hcalls ?_ fun id reply h => inv.notifying id reply (hsender ▸ h)
    rw [State.pending, State.pending, hsender, hqueue]
  cases h with
  | call op command => exact inv.add_step rfl rfl rfl rfl
  | put id call hc hp =>
    have hnot : id ∉ s.pending := inv.not_mem_pending hc (by simp [hp])
    have hpending : s.sender.current.toList ++ (s.queued_commands ++ [id]) = s.pending ++ [id] :=
      (List.append_assoc ..).symm
    refine inv.phase_step hc rfl (by simp [hp]) (fun h => h.elim) rfl ?_ ?_ fun _ => .inl rfl
    · show (s.sender.current.toList ++ (s.queued_commands ++ [id])).Nodup
      rw [hpending]
      refine List.nodup_append.mpr ⟨inv.nodup, List.nodup_singleton _, ?_⟩
      rintro i hi j hj rfl
      exact hnot (List.mem_singleton.mp hj ▸ hi)
    · intro i (hi : i ∈ s.sender.current.toList ++ (s.queued_commands ++ [id]))
      rw [hpending] at hi
      exact (List.mem_append.mp hi).imp_right List.mem_singleton.mp
  | wait id call hc hp =>
    exact inv.phase_step hc rfl (by simp [hp]) (fun h => h.elim) rfl inv.nodup (fun _ h => .inl h) fun _ => .inr rfl
  | wake id call hc hp hcv =>
    have hnot : id ∉ s.pending := inv.not_mem_pending hc (by simp [hp])
    obtain ⟨reply, href, hname, -⟩ := inv.awake id call hc (by rw [hp]; trivial)
    have houtcome : call.outcome = call.op.result reply := by simp only [Call.outcome, href]
    refine inv.phase_step hc rfl (by simp [hp]) (fun _ => ⟨reply, href, hname, ?_⟩) rfl inv.nodup (fun _ h => .inl h)
      fun hid => absurd hid hnot
    rintro outcome ⟨⟩
    exact houtcome
  | get id rest hs hq =>
    refine inv.sender_step rfl ?_ fun _ _ h => (by cases h)
    simp [State.pending, hs, hq, Sender.current]
  | lock id hs | send id call body hs | sendRaises id call e hs | unlock id hs | timeout id hs =>
    refine inv.sender_step rfl ?_ fun _ _ h => (by cases h)
    simp [State.pending, hs, Sender.current]
  | reply id message rest hs =>
    refine inv.sender_step rfl ?_ fun _ _ h => (by cases h)
    simp [State.pending, hs, Sender.current]
  | unexpected id call message hs =>
    refine inv.sender_step rfl ?_ fun _ _ h => (by cases h)
    simp [State.pending, hs, Sender.current]
  | acquire id call message hs hc hname hcv =>
    have hmem : id ∈ s.pending := by
      rw [State.pending, hs]
      exact List.mem_append_left _ (.head _)
    have hwaiting : call.phase = .waiting := by
      obtain ⟨c, hc', hp⟩ := inv.pending id hmem
      rw [hc] at hc'
      cases hc'
      refine hp.resolve_left fun hq => ?_
      rw [hq] at hcv
      cases hcv
    refine inv.sender_step rfl ?_ ?_
    · simp [State.pending, hs, Sender.current]
    · rintro _ _ ⟨⟩
      exact ⟨call, hc, hwaiting, hname⟩
  | notify id call message hs hc => exact inv.notify_step hs hc
  | receiveState message rest op command => exact inv.add_step rfl rfl rfl rfl
  | receiveSynchronous | receiveAsynchronous | resume | answer | ignore | emit => exact same rfl rfl rfl

theorem delivery_reachable (h : Reachable (Step handler) State.init s) : Delivery s :=
  h.invariant delivery_init fun _ _ _ => Delivery.step

/-! ### Errors -/

/-- The reply that has woken a call is the answer of a device that answers each command once. -/
theorem answered_iff (h : Reachable (PoliteStep handler) State.init s) (hc : s.calls[id]? = some call)
    (hp : call.phase = .returned outcome) {reply : AvatarMessage} (href : call.ref = some reply)
    (reply' : AvatarMessage) : (id, reply') ∈ s.answers ↔ reply' = reply := by
  have inv := inv_reachable h
  have hok := inv.calls id call hc
  simp only [CallOk, hp] at hok
  obtain ⟨m, hm, hmem, -⟩ := hok
  rw [href, Option.some.injEq] at hm
  subst hm
  constructor
  · intro hmem'
    have heq := List.inj_on_of_nodup_map inv.once hmem' hmem rfl
    exact congrArg Prod.snd heq
  · rintro rfl
    exact hmem

/-- A call that has returned reports its reply, unless it was `set_register` and the reply an error. -/
theorem remote_errors_iff (h : Reachable (Step handler) State.init s) (hc : s.calls[id]? = some call)
    (hp : call.phase = .returned outcome) :
    ∃ reply, call.ref = some reply ∧
      (Reachable (PoliteStep handler) State.init s → ∀ reply', (id, reply') ∈ s.answers ↔ reply' = reply) ∧
      (call.op.Reports reply outcome ↔ ¬(call.op.IsSetRegister ∧ reply.name = "AVATAR_RPC_DTH_REPLY_ERROR")) := by
  have hawake : call.phase.Awake := by
    rw [hp]
    trivial
  obtain ⟨reply, href, hname, houtcome⟩ := (delivery_reachable h).awake id call hc hawake
  rw [houtcome outcome hp]
  exact ⟨reply, href, fun hpolite => answered_iff hpolite hc hp href, Operation.result_reports_iff hname⟩

/-- A call that is answered can return: where nothing else is under way, any operation whose command can be sent comes to
    what it makes of any expected reply, and nothing is under way behind it. -/
theorem exchange_returns (h : Reachable (PoliteStep handler) State.init s) (hquiet : s.Quiet) (op : Operation)
    {command reply : AvatarMessage} {body : List Bytes.Byte} (hcommand : op.message = .ok command)
    (hbody : command.serialize = .ok body) (hreply : reply.name ∈ op.expectedReplies) :
    ∃ t call, Reachable (PoliteStep handler) State.init t ∧ t.Quiet ∧ t.calls[s.calls.length]? = some call ∧
      call.op = op ∧ call.phase = .returned (op.result reply) ∧ (s.calls.length, reply) ∈ t.answers := by
  obtain ⟨as, hrun⟩ := h
  obtain ⟨bs, hexchange⟩ : Reachable (PoliteStep handler) s _ :=
    exchange_reachable hquiet op command reply body hcommand hbody hreply
  obtain ⟨hqueue, hsender, hlock, hdevice, hhost, hreplies, hreceiver⟩ := hquiet
  exact ⟨_, _, ⟨_, hrun.append hexchange⟩, ⟨hqueue, hsender, hlock, hdevice, hhost, hreplies, hreceiver⟩,
    List.getElem?_concat_length, rfl, rfl, List.mem_append_right _ (.head _)⟩

/-! ### A run -/

def setR0 : AvatarMessage := ⟨0x04, "AVATAR_RPC_HTD_SET_REGISTER", [("register", .int 0), ("value", .int 1)]⟩

def errorReply : AvatarMessage := ⟨0xB2, "AVATAR_RPC_DTH_REPLY_ERROR", [("error", .int 3)]⟩

/-- The device has answered `set_register(0, 1)` with an error. -/
def refusedCall : Call := ⟨.setRegister 0 1, setR0, .returned (.ok none), some errorReply⟩

def refusedState : State := { State.init with calls := [refusedCall], answers := [(0, errorReply)] }

theorem refusedState_reachable : Reachable (PoliteStep fun _ => none) State.init refusedState :=
  exchange_reachable quiet_init (.setRegister 0 1) setR0 errorReply [0x04, 0x00, 0x01, 0x00, 0x00, 0x00] rfl rfl
    (.tail _ (.head _))

theorem remote_errors_iff_refused : ∃ reply, refusedCall.ref = some reply ∧
    (Reachable (PoliteStep fun _ => none) State.init refusedState →
      ∀ reply', (0, reply') ∈ refusedState.answers ↔ reply' = reply) ∧
    (refusedCall.op.Reports reply (.ok none) ↔
      ¬(refusedCall.op.IsSetRegister ∧ reply.name = "AVATAR_RPC_DTH_REPLY_ERROR")) :=
  remote_errors_iff (refusedState_reachable.mono fun _ _ _ h => h.1) rfl rfl

theorem refused_set_register_returns : ¬∀ (s : State) (id : Nat) (call : Call)
    (outcome : Except OperationError (Option FieldValue)) (reply : AvatarMessage),
    Reachable (PoliteStep fun _ => none) State.init s → s.calls[id]? = some call → call.phase = .returned outcome →
      (id, reply) ∈ s.answers → call.op.Reports reply outcome := by
  intro h
  have hreports := h refusedState 0 _ _ errorReply refusedState_reachable rfl rfl (.head _)
  exact Operation.reply_ne_error (hreports.returns none rfl).symm

end AvatarProtocol

end Avatar
