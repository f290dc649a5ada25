import Avatar.Targets.Avatarstub
import Avatar.Theorems.ReplyPairing

/-! The receiver thread calls the handler of asynchronous messages itself. The handler of the stub target
    reads a register when it gets a state message: a blocking operation, whose reply only the receiver
    thread could deliver. -/

namespace Avatar
open Transition

namespace AvatarProtocol
variable {handler : AvatarMessage → Option Operation} {s t : State} {a : Action} {id : Nat} {message : AvatarMessage}

/-- The receiver thread is in `cv.wait()`. -/
def Blocked (s : State) : Prop :=
  ∃ id call, s.receiver = .calling id ∧ s.calls[id]? = some call ∧ call.phase = .waiting

/-- What the device sends, in reply to a command or of its own accord, satisfies `sends`. -/
def DeviceSends (sends : AvatarMessage → Prop) : Action → Prop
  | .answer message | .emit message => sends message
  | _ => True

/-- A step of the protocol that `AvatarstubTarget.start` creates. -/
def TargetStep (sends : AvatarMessage → Prop) (s : State) (a : Action) (t : State) : Prop :=
  Step AvatarstubTarget.handleAsynchronousMessage s a t ∧ DeviceSends sends a

theorem handler_state (hm : message.name = "AVATAR_RPC_DTH_STATE") :
    AvatarstubTarget.handleAsynchronousMessage message = some (.getRegister 15) := by
  have hpc : (RegisterName.str "pc").number = .ok 15 := rfl
  rw [AvatarstubTarget.handleAsynchronousMessage, if_pos hm, hpc]

/-! ### Without a state message -/

/-- Nothing on the link would make the handler call an operation, and none is being called. -/
structure Free (sends : AvatarMessage → Prop) (s : State) : Prop where
  running : s.receiver = .running
  link : ∀ message ∈ s.toHost, sends message

/-- The receiver thread leaves its loop only for a state message. -/
theorem Free.step {sends : AvatarMessage → Prop}
    (hsends : ∀ message, sends message → message.name ≠ "AVATAR_RPC_DTH_STATE")
    (hfree : Free sends s) (hstep : Step handler s a t) (hdevice : DeviceSends sends a) : Free sends t := by
  obtain ⟨hrun, hlink⟩ := hfree
  cases hstep with
  | receiveSynchronous message rest _ hw | receiveAsynchronous message rest _ hw =>
    exact ⟨hrun, fun m hm => hlink m (hw ▸ List.mem_cons_of_mem _ hm)⟩
  | receiveState message rest op command _ hw hm => exact absurd hm (hsends message (hlink message (hw ▸ .head _)))
  | resume => exact ⟨rfl, hlink⟩
  | answer id rest message | emit message =>
    refine ⟨hrun, fun m hm => ?_⟩
    rcases List.mem_append.mp hm with hm | hm
    · exact hlink m hm
    · exact List.mem_singleton.mp hm ▸ hdevice
  | _ => exact ⟨hrun, hlink⟩

theorem Free.not_blocked {sends : AvatarMessage → Prop} (h : Free sends s) : ¬Blocked s := by
  rintro ⟨id, call, hs, -⟩
  rw [h.running] at hs
  cases hs

/-! ### With a state message -/

/-- The state in which the first message of the device has blocked the receiver thread. -/
def blockedState : State :=
  { State.init with
    calls := [⟨.getRegister 15, getPc, .waiting, none⟩]
    queued_commands := [0]
    receiver := .calling 0 }

theorem blockedState_blocked : Blocked blockedState := ⟨0, _, rfl, rfl, rfl⟩

theorem blockedState_reachable {sends : AvatarMessage → Prop} (hm : message.name = "AVATAR_RPC_DTH_STATE")
    (hsends : sends message) : Reachable (TargetStep sends) State.init blockedState := by
  have tail : ∀ {s t : State} (a : Action), Reachable (TargetStep sends) State.init s →
      Step AvatarstubTarget.handleAsynchronousMessage s a t → DeviceSends sends a →
      Reachable (TargetStep sends) State.init t := fun _ h hstep hdevice => h.tail ⟨hstep, hdevice⟩
  have h := tail (.emit message) .refl (.emit message) hsends
  replace h := tail (.receive message) h
    (.receiveState message [] (.getRegister 15) getPc rfl rfl hm (handler_state hm) rfl) trivial
  replace h := tail (.put 0) h (.put 0 _ rfl rfl) trivial
  replace h := tail (.wait 0) h (.wait 0 _ rfl rfl) trivial
  exact h

/-- The receiver thread never blocks exactly when the device sends no state message. -/
theorem never_blocked_iff (sends : AvatarMessage → Prop) :
    (∀ s, Reachable (TargetStep sends) State.init s → ¬Blocked s) ↔
      ∀ message, sends message → message.name ≠ "AVATAR_RPC_DTH_STATE" := by
  constructor
  · intro h message hsends hm
    exact h blockedState (blockedState_reachable hm hsends) blockedState_blocked
  · intro hsends s h
    have hinit : Free sends State.init := ⟨rfl, fun _ hm => absurd hm List.not_mem_nil⟩
    exact (h.invariant hinit fun _ _ _ hfree hstep => hfree.step hsends hstep.1 hstep.2).not_blocked

/-- A device that reports a state blocks the receiver thread. -/
theorem state_blocks : ¬∀ s, Reachable (TargetStep fun message =>
    message.name = "AVATAR_RPC_DTH_STATE" ∨ ∃ op : Operation, message.name ∈ op.expectedReplies) State.init s →
      ¬Blocked s := by
  intro h
  have hm : AvatarMessage.name ⟨0x81, "AVATAR_RPC_DTH_STATE", [("state", .int 1)]⟩ = "AVATAR_RPC_DTH_STATE" := rfl
  exact h blockedState (blockedState_reachable hm (.inl hm)) blockedState_blocked

/-! ### There is no way out -/

/-- The receiver thread is in a call whose reply, if there is one, is still on the link. -/
structure Stuck (id : Nat) (s : State) : Prop where
  calling : s.receiver = .calling id
  asleep : ∃ call, s.calls[id]? = some call ∧ (call.phase = .acquired ∨ call.phase = .queued ∨ call.phase = .waiting)
  undelivered : s.sender = .sent id ∨ s.sender = .waiting id → s.received_synchronous_messages = []
  untaken : ∀ message, s.sender ≠ .received id message ∧ s.sender ≠ .notifying id message

theorem Stuck.step (hstuck : Stuck id s) (inv : Inv s) (h : PoliteStep handler s a t) : Stuck id t := by
  obtain ⟨hstep, hpolite⟩ := h
  obtain ⟨hcalling, ⟨c, hc, hphase⟩, hundelivered, huntaken⟩ := hstuck
  -- A call with another phase than `c` is another call.
  have other : ∀ {i : Nat} {call : Call}, s.calls[i]? = some call → call.phase ≠ c.phase → id ≠ i :=
    fun {i call} hi hp heq => by
      rw [← heq, hc] at hi
      cases hi
      exact hp rfl
  cases hstep with
  | call op command =>
    obtain ⟨hlt, -⟩ := List.getElem?_eq_some_iff.mp hc
    exact ⟨hcalling, ⟨c, by rw [List.getElem?_append_left hlt, hc], hphase⟩, hundelivered, huntaken⟩
  | put i call hi hp =>
    refine ⟨hcalling, ?_, hundelivered, huntaken⟩
    by_cases heq : id = i
    · exact ⟨_, by rw [getElem?_set_call hi, if_pos heq], .inr (.inl rfl)⟩
    · exact ⟨c, by rw [getElem?_set_call hi, if_neg heq, hc], hphase⟩
  | wait i call hi hp =>
    refine ⟨hcalling, ?_, hundelivered, huntaken⟩
    by_cases heq : id = i
    · exact ⟨_, by rw [getElem?_set_call hi, if_pos heq], .inr (.inr rfl)⟩
    · exact ⟨c, by rw [getElem?_set_call hi, if_neg heq, hc], hphase⟩
  | wake i call hi hp =>
    have hne : id ≠ i := other hi (by rcases hphase with h | h | h <;> simp [hp, h])
    exact ⟨hcalling, ⟨c, by rw [getElem?_set_call hi, if_neg hne, hc], hphase⟩, hundelivered, huntaken⟩
  | get | lock | sendRaises | unexpected =>
    exact ⟨hcalling, ⟨c, hc, hphase⟩, fun h => (by rcases h with h | h <;> cases h), by simp⟩
  | send i call body hs =>
    have hex := inv.exchange
    rw [Exchange, hs] at hex
    exact ⟨hcalling, ⟨c, hc, hphase⟩, fun _ => (List.append_eq_nil_iff.mp hex.2).1, by simp⟩
  | unlock i hs =>
    refine ⟨hcalling, ⟨c, hc, hphase⟩, fun h => hundelivered ?_, by simp⟩
    rcases h with h | h
    · cases h
    · cases h
      exact .inl hs
  | reply i message rest hs hr =>
    have hne : i ≠ id := fun heq => by
      rw [hundelivered (.inr (heq ▸ hs))] at hr
      cases hr
    refine ⟨hcalling, ⟨c, hc, hphase⟩, fun h => (by rcases h with h | h <;> cases h), fun m => ⟨fun h => ?_, by simp⟩⟩
    cases h
    exact hne rfl
  | acquire i call message hs =>
    refine ⟨hcalling, ⟨c, hc, hphase⟩, fun h => (by rcases h with h | h <;> cases h), fun m => ⟨by simp, fun h => ?_⟩⟩
    cases h
    exact (huntaken message).1 hs
  | notify i call message hs hi =>
    have hne : id ≠ i := fun heq => (huntaken message).2 (heq ▸ hs)
    exact ⟨hcalling, ⟨c, by rw [getElem?_set_call hi, if_neg hne, hc], hphase⟩,
      fun h => (by rcases h with h | h <;> cases h), by simp⟩
  | receiveSynchronous _ _ hr | receiveAsynchronous _ _ hr | receiveState _ _ _ _ hr =>
    rw [hcalling] at hr
    cases hr
  | resume i call outcome hr hi hp =>
    rw [hcalling] at hr
    cases hr
    exact absurd rfl (other hi (by rcases hphase with h | h | h <;> simp [hp, h]))
  | answer | emit => exact ⟨hcalling, ⟨c, hc, hphase⟩, hundelivered, huntaken⟩
  | timeout | ignore => exact hpolite.elim

/-- The receiver thread calls an operation only with a state message, and is stuck then. -/
theorem stuck_of_calling (h : Reachable (PoliteStep handler) State.init s) (hs : s.receiver = .calling id) :
    Stuck id s := by
  suffices Inv s ∧ ∀ id, s.receiver = .calling id → Stuck id s from this.2 id hs
  refine h.invariant (P := fun s => Inv s ∧ ∀ id, s.receiver = .calling id → Stuck id s) ⟨inv_init, nofun⟩ ?_
  rintro s a t ⟨inv, hstuck⟩ hstep
  refine ⟨inv.step hstep, fun id hid => ?_⟩
  cases hr : s.receiver with
  | calling i =>
    have := (hstuck i hr).step inv hstep
    rw [this.calling] at hid
    cases hid
    exact this
  | running =>
    obtain ⟨hstep, -⟩ := hstep
    cases hstep with
    | receiveState message rest op command =>
      cases hid
      -- The new call is none of those that `run_send` knows.
      have fresh : s.sender.current ≠ some s.calls.length := fun hcur => by
        obtain ⟨call, hc, -⟩ := inv.pending s.calls.length (by rw [State.pending, hcur]; exact .head _)
        rw [List.getElem?_eq_none (Nat.le_refl _)] at hc
        cases hc
      refine ⟨rfl, ⟨_, List.getElem?_concat_length, .inl rfl⟩, fun h => absurd ?_ fresh, fun m => ?_⟩
      · rcases h with h | h <;> exact congrArg Sender.current h
      · exact ⟨fun h => fresh (congrArg Sender.current h), fun h => fresh (congrArg Sender.current h)⟩
    | resume => cases hid
    | _ =>
      rw [hr] at hid
      cases hid

/-- Once the receiver thread has called an operation it never reads another message. -/
theorem calling_forever (h : Reachable (PoliteStep handler) State.init s) (hs : s.receiver = .calling id)
    (ht : Reachable (PoliteStep handler) s t) : t.receiver = .calling id := by
  suffices Inv t ∧ Stuck id t from this.2.calling
  refine ht.invariant (P := fun s => Inv s ∧ Stuck id s) ⟨inv_reachable h, stuck_of_calling h hs⟩ ?_
  rintro s a t ⟨inv, hstuck⟩ hstep
  exact ⟨inv.step hstep, hstuck.step inv hstep⟩

end AvatarProtocol

end Avatar
