import Avatar.Theorems.ReplyPairing

/-! What `run_send` survives. A command that cannot be serialized ends the thread with the send lock held, a reply
    that does not come in time ends it too, and after an unexpected reply nobody wakes the caller. Short of
    these the thread goes on, whatever the device sends and however the callers are interleaved. -/

namespace Avatar
open Transition

/-- The command has been queued, and the caller has not been notified. -/
def Phase.Blocked : Phase → Prop
  | queued | waiting => True
  | _ => False

/-- Between the acquisition and the release of the send lock. -/
def Sender.sending : Sender → Bool
  | locked _ | sent _ => true
  | _ => false

namespace AvatarProtocol
variable {handler : AvatarMessage → Option Operation} {s t : State} {a : Action} {id : Nat} {call c : Call}
  {message : AvatarMessage}

/-! ### The statement -/

/-- `run_send` has taken the command of the call and is done with it. -/
def Finished (s : State) (id : Nat) (call : Call) : Prop :=
  call.phase ≠ .acquired ∧ id ∉ s.queued_commands ∧ (s.sender.current = some id → s.sender = .dead id)

structure Survives (handler : AvatarMessage → Option Operation) (s : State) : Prop where
  alive : ∀ id, s.sender ≠ .dead id
  /-- Unless there is nothing to do, or a reply to wait for, `run_send` can go on without its end. -/
  progress : (s.sender = .idle ∧ s.queued_commands = []) ∨ (∃ id, s.sender = .waiting id) ∨
    ∃ t, Reachable (Step handler) s t ∧ t.sender ≠ s.sender ∧ ∀ id, t.sender ≠ .dead id
  lock : s.sender.sending = false → s.send_lock = false
  awake : ∀ id call, s.calls[id]? = some call → Finished s id call → ¬call.phase.Blocked

/-- The step does not take the lock for a command that cannot be serialized, give up a reply or find it unexpected. -/
def Served (s : State) : Action → Prop
  | .lock => ∀ id call, s.sender = .got id → s.calls[id]? = some call → ∃ body, call.command.serialize = .ok body
  | .timeout | .unexpected => False
  | _ => True

/-! ### The invariant -/

/-- The callers that are blocked are those whose commands wait for `run_send` or are in its hands. -/
structure Tended (s : State) : Prop where
  nodup : s.pending.Nodup
  known : ∀ id ∈ s.pending, id < s.calls.length
  blocked : ∀ id call, s.calls[id]? = some call → (id ∈ s.pending ↔ call.phase.Blocked)
  asleep : ∀ id message call, s.sender = .notifying id message → s.calls[id]? = some call → call.phase = .waiting
  lock : s.send_lock = s.sender.sending
  alive : ∀ id, s.sender ≠ .dead id

/-- The command for which the lock is held can be serialized. -/
def Packable (s : State) : Prop :=
  ∀ id, s.sender = .locked id → ∃ call body, s.calls[id]? = some call ∧ call.command.serialize = .ok body

theorem tended_init : Tended State.init where
  nodup := List.nodup_nil
  known _ h := absurd h List.not_mem_nil
  blocked _ _ h := by cases h
  asleep _ _ _ h := by cases h
  lock := rfl
  alive _ h := by cases h

/-- The steps that leave the calls alone, and that do not finish with a command. -/
theorem Tended.sender_step (h : Tended s) (hcalls : t.calls = s.calls) (hpending : t.pending = s.pending)
    (hasleep : ∀ id message call, t.sender = .notifying id message → s.calls[id]? = some call → call.phase = .waiting)
    (hlock : t.send_lock = t.sender.sending) (halive : ∀ id, t.sender ≠ .dead id) : Tended t where
  nodup := hpending ▸ h.nodup
  known id hid := by
    rw [hcalls]
    exact h.known id (hpending ▸ hid)
  blocked id call hc := by
    rw [hcalls] at hc
    rw [hpending]
    exact h.blocked id call hc
  asleep id message call hs hc := hasleep id message call hs (hcalls ▸ hc)
  lock := hlock
  alive := halive

/-- The steps of the receiver thread and of the device. -/
theorem Tended.frame_step (h : Tended s) (hcalls : t.calls = s.calls) (hsender : t.sender = s.sender)
    (hqueue : t.queued_commands = s.queued_commands) (hlock : t.send_lock = s.send_lock) : Tended t := by
  refine h.sender_step hcalls ?_ ?_ ?_ ?_
  · rw [State.pending, hsender, hqueue]
    rfl
  · rw [hsender]
    exact h.asleep
  · rw [hsender, hlock]
    exact h.lock
  · rw [hsender]
    exact h.alive

theorem Tended.add_step (h : Tended s) (hcalls : t.calls = s.calls ++ [c]) (hc : c.phase = .acquired)
    (hsender : t.sender = s.sender) (hqueue : t.queued_commands = s.queued_commands)
    (hlock : t.send_lock = s.send_lock) : Tended t := by
  have hpending : t.pending = s.pending := by
    rw [State.pending, hsender, hqueue]
    rfl
  refine ⟨hpending ▸ h.nodup, ?_, ?_, ?_, ?_, ?_⟩
  · intro id hid
    rw [hcalls, List.length_append]
    exact Nat.lt_add_right _ (h.known id (hpending ▸ hid))
  · intro id call hcall
    rw [hcalls, getElem?_snoc_call] at hcall
    rw [hpending]
    split at hcall
    · -- The new call is none of those that `run_send` knows.
      rename_i heq
      cases hcall
      rw [hc, heq]
      exact ⟨fun hid => absurd (h.known _ hid) (Nat.lt_irrefl _), False.elim⟩
    · exact h.blocked id call hcall
  · intro id message call hs hcall
    rw [hsender] at hs
    have hid : id ∈ s.pending := by
      rw [State.pending, hs]
      exact .head _
    rw [hcalls, List.getElem?_append_left (h.known id hid)] at hcall
    exact h.asleep id message call hs hcall
  · rw [hlock, hsender]
    exact h.lock
  · rw [hsender]
    exact h.alive

theorem Tended.phase_step (h : Tended s) (hcall : s.calls[id]? = some call) (hcalls : t.calls = s.calls.set id c)
    (hnodup : t.pending.Nodup) (hid : id ∈ t.pending ↔ c.phase.Blocked)
    (hother : ∀ j, j ≠ id → (j ∈ t.pending ↔ j ∈ s.pending))
    (hasleep : ∀ j message, t.sender = .notifying j message → s.sender = .notifying j message ∧ j ≠ id)
    (hlock : t.send_lock = t.sender.sending) (halive : ∀ id, t.sender ≠ .dead id) : Tended t := by
  refine ⟨hnodup, ?_, ?_, ?_, hlock, halive⟩
  · intro j hj
    rw [hcalls, List.length_set]
    by_cases heq : j = id
    · obtain ⟨hlt, -⟩ := List.getElem?_eq_some_iff.mp hcall
      exact heq ▸ hlt
    · exact h.known j ((hother j heq).mp hj)
  · intro j call' hj
    rw [hcalls, getElem?_set_call hcall] at hj
    split at hj
    · rename_i heq
      cases hj
      exact heq ▸ hid
    · rename_i hne
      rw [hother j hne]
      exact h.blocked j call' hj
  · intro j message call' hs hj
    obtain ⟨hs, hne⟩ := hasleep j message hs
    rw [hcalls, getElem?_set_call hcall, if_neg hne] at hj
    exact h.asleep j message call' hs hj

theorem Tended.not_notifying (h : Tended s) (hcall : s.calls[id]? = some call) (hphase : call.phase ≠ .waiting) {j : Nat}
    (hs : s.sender = .notifying j message) : j ≠ id := by
  rintro rfl
  exact hphase (h.asleep j message call hs hcall)

theorem Tended.put_step (h : Tended s) (hc : s.calls[id]? = some call) (hp : call.phase = .acquired)
    (hcalls : t.calls = s.calls.set id { call with phase := .queued }) (hsender : t.sender = s.sender)
    (hqueue : t.queued_commands = s.queued_commands ++ [id]) (hlock : t.send_lock = s.send_lock) : Tended t := by
  have hid : id ∉ s.pending := by
    rw [h.blocked id call hc, hp]
    exact False.elim
  have hpending : t.pending = s.pending ++ [id] := by
    rw [State.pending, hsender, hqueue, ← List.append_assoc]
    rfl
  refine h.phase_step hc hcalls ?_ ?_ ?_ ?_ ?_ ?_
  · rw [hpending, ← List.concat_eq_append]
    exact h.nodup.concat hid
  · rw [hpending]
    exact ⟨fun _ => trivial, fun _ => List.mem_append_right _ (.head _)⟩
  · intro j hj
    rw [hpending, List.mem_append, List.mem_singleton, or_iff_left hj]
  · intro j message hs
    rw [hsender] at hs
    exact ⟨hs, h.not_notifying hc (by simp [hp]) hs⟩
  · rw [hlock, hsender]
    exact h.lock
  · rw [hsender]
    exact h.alive

theorem Tended.step (h : Tended s) (hpackable : Packable s) (hstep : Step handler s a t) (hserved : Served s a) :
    Tended t := by
  cases hstep with
  | call op command => exact h.add_step rfl rfl rfl rfl rfl
  | receiveState message rest op command => exact h.add_step rfl rfl rfl rfl rfl
  | put id call hc hp => exact h.put_step hc hp rfl rfl rfl rfl
  | wait id call hc hp =>
    have hid : id ∈ s.pending := by
      rw [h.blocked id call hc, hp]
      trivial
    refine h.phase_step hc rfl h.nodup ⟨fun _ => trivial, fun _ => hid⟩ (fun _ _ => .rfl) ?_ h.lock h.alive
    intro j message hs
    exact ⟨hs, h.not_notifying hc (by simp [hp]) hs⟩
  | wake id call hc hp =>
    have hid : id ∉ s.pending := by
      rw [h.blocked id call hc, hp]
      exact False.elim
    refine h.phase_step hc rfl h.nodup ⟨fun hmem => hid hmem, False.elim⟩ (fun _ _ => .rfl) ?_ h.lock h.alive
    intro j message hs
    exact ⟨hs, h.not_notifying hc (by simp [hp]) hs⟩
  | get id rest hs hq =>
    refine h.sender_step rfl ?_ (fun _ _ _ hs => by cases hs) ?_ (by simp)
    · rw [State.pending, State.pending, hs, hq]
      rfl
    · exact h.lock.trans (by rw [hs]; rfl)
  | lock id hs =>
    refine h.sender_step rfl ?_ (fun _ _ _ hs => by cases hs) rfl (by simp)
    rw [State.pending, State.pending, hs]
    rfl
  | send id call body hs =>
    refine h.sender_step rfl ?_ (fun _ _ _ hs => by cases hs) (h.lock.trans (by rw [hs]; rfl)) (by simp)
    rw [State.pending, State.pending, hs]
    rfl
  | sendRaises id call e hs hc he =>
    obtain ⟨call', body, hc', hbody⟩ := hpackable id hs
    rw [hc] at hc'
    cases hc'
    rw [he] at hbody
    cases hbody
  | unlock id hs =>
    refine h.sender_step rfl ?_ (fun _ _ _ hs => by cases hs) rfl (by simp)
    rw [State.pending, State.pending, hs]
    rfl
  | reply id message rest hs =>
    refine h.sender_step rfl ?_ (fun _ _ _ hs => by cases hs) (h.lock.trans (by rw [hs]; rfl)) (by simp)
    rw [State.pending, State.pending, hs]
    rfl
  | timeout => exact hserved.elim
  | unexpected => exact hserved.elim
  | acquire id call message hs hc hm hfree =>
    have hid : id ∈ s.pending := by
      rw [State.pending, hs]
      exact .head _
    refine h.sender_step rfl ?_ ?_ (h.lock.trans (by rw [hs]; rfl)) (by simp)
    · rw [State.pending, State.pending, hs]
      rfl
    · -- The condition variable is free, so the caller is in its wait.
      rintro _ _ call' ⟨⟩ hc'
      rw [hc] at hc'
      cases hc'
      have hblocked := (h.blocked id call hc).mp hid
      cases hp : call.phase with
      | waiting => rfl
      | acquired | queued =>
        rw [hp] at hfree
        cases hfree
      | notified | returned => exact absurd hblocked (by rw [hp]; exact False.elim)
  | notify id call message hs hc =>
    have hpending : s.pending = id :: s.queued_commands := by
      rw [State.pending, hs]
      rfl
    have hnodup := h.nodup
    rw [hpending, List.nodup_cons] at hnodup
    obtain ⟨hid, hnodup⟩ := hnodup
    refine h.phase_step hc rfl hnodup ⟨fun hmem => absurd hmem hid, fun hb => ?_⟩ ?_ (by simp) ?_ (by simp)
    · rw [h.asleep id message call hs hc] at hb
      exact hb.elim
    · intro j hj
      rw [hpending, List.mem_cons, or_iff_right hj]
      rfl
    · exact h.lock.trans (by rw [hs]; rfl)
  | receiveSynchronous => exact h.frame_step rfl rfl rfl rfl
  | receiveAsynchronous => exact h.frame_step rfl rfl rfl rfl
  | resume => exact h.frame_step rfl rfl rfl rfl
  | answer => exact h.frame_step rfl rfl rfl rfl
  | ignore => exact h.frame_step rfl rfl rfl rfl
  | emit => exact h.frame_step rfl rfl rfl rfl

/-- A step keeps the commands of the calls. -/
theorem command_step (hstep : Step handler s a t) (hcall : s.calls[id]? = some call) :
    ∃ call', t.calls[id]? = some call' ∧ call'.command = call.command := by
  have hset : ∀ {i : Nat} {c c' : Call}, s.calls[i]? = some c → c'.command = c.command →
      ∃ call', (s.calls.set i c')[id]? = some call' ∧ call'.command = call.command := by
    intro i c c' hi hc
    rw [getElem?_set_call hi]
    split
    · next heq =>
      rw [← heq, hcall] at hi
      cases hi
      exact ⟨c', rfl, hc⟩
    · exact ⟨call, hcall, rfl⟩
  have hsnoc : ∀ c : Call, ∃ call', (s.calls ++ [c])[id]? = some call' ∧ call'.command = call.command := by
    intro c
    obtain ⟨hlt, -⟩ := List.getElem?_eq_some_iff.mp hcall
    exact ⟨call, by rw [List.getElem?_append_left hlt, hcall], rfl⟩
  cases hstep with
  | call | receiveState => exact hsnoc _
  | put id' c hc | wait id' c hc | wake id' c hc => exact hset hc rfl
  | notify id' c message hs hc => exact hset hc rfl
  | _ => exact ⟨call, hcall, rfl⟩

theorem Packable.step (h : Packable s) (hknown : ∀ id, s.sender.current = some id → id < s.calls.length)
    (hstep : Step handler s a t) (hserved : Served s a) : Packable t := by
  have hkeep : t.sender = s.sender → Packable t := by
    intro hsender id hs
    obtain ⟨call, body, hcall, hbody⟩ := h id (hsender.symm.trans hs)
    obtain ⟨call', hcall', hcommand⟩ := command_step hstep hcall
    exact ⟨call', body, hcall', by rw [hcommand, hbody]⟩
  cases hstep with
  | lock id hs =>
    rintro _ ⟨⟩
    have hlt := hknown id (by rw [hs]; rfl)
    obtain ⟨body, hbody⟩ := hserved id _ hs (List.getElem?_eq_getElem hlt)
    exact ⟨_, body, List.getElem?_eq_getElem hlt, hbody⟩
  | get | send | sendRaises | unlock | reply | timeout | unexpected | acquire | notify => rintro _ ⟨⟩
  | _ => exact hkeep rfl

/-- `run_send` holds the lock for a command that cannot be serialized, or has ended with it. -/
structure Doomed (id : Nat) (s : State) : Prop where
  sender : s.sender = .locked id ∨ s.sender = .dead id
  unpackable : ∃ call e, s.calls[id]? = some call ∧ call.command.serialize = .error e

theorem Doomed.step (h : Doomed id s) (hstep : Step handler s a t) : Doomed id t := by
  obtain ⟨hsender, call, e, hcall, he⟩ := h
  obtain ⟨call', hcall', hcommand⟩ := command_step hstep hcall
  refine ⟨?_, call', e, hcall', by rw [hcommand, he]⟩
  have hnot : ∀ {x : Sender}, s.sender = x → x ≠ .locked id → x ≠ .dead id → False :=
    fun hs hlocked hdead => hsender.elim (fun h => hlocked (hs.symm.trans h)) fun h => hdead (hs.symm.trans h)
  cases hstep with
  | send id' c body hs hc hbody =>
    rcases hsender with hsender | hsender
    · cases hs.symm.trans hsender
      rw [hcall] at hc
      cases hc
      rw [he] at hbody
      cases hbody
    · cases hs.symm.trans hsender
  | sendRaises id' c e' hs =>
    rcases hsender with hsender | hsender
    · cases hs.symm.trans hsender
      exact .inr rfl
    · cases hs.symm.trans hsender
  | lock id' hs | unlock id' hs | timeout id' hs => exact (hnot hs nofun nofun).elim
  | get id' rest hs | notify id' c message hs => exact (hnot hs nofun nofun).elim
  | reply id' message rest hs | unexpected id' c message hs | acquire id' c message hs =>
    exact (hnot hs nofun nofun).elim
  | _ => exact hsender

/-! ### What the invariant gives -/

theorem Tended.known_current (h : Tended s) (id : Nat) (hs : s.sender.current = some id) : id < s.calls.length := by
  refine h.known id ?_
  rw [State.pending, hs]
  exact .head _

/-- The call whose command is in the hands of `run_send`. -/
theorem Tended.current_call (h : Tended s) (hs : s.sender.current = some id) :
    ∃ call, s.calls[id]? = some call ∧ call.phase.Blocked := by
  have hid : id ∈ s.pending := by
    rw [State.pending, hs]
    exact .head _
  have hlt := h.known_current id hs
  exact ⟨s.calls[id], List.getElem?_eq_getElem hlt, (h.blocked id _ (List.getElem?_eq_getElem hlt)).mp hid⟩

theorem Tended.progress (h : Tended s) (hpackable : Packable s) :
    (s.sender = .idle ∧ s.queued_commands = []) ∨ (∃ id, s.sender = .waiting id) ∨
      ∃ t, Reachable (Step handler) s t ∧ t.sender ≠ s.sender ∧ ∀ id, t.sender ≠ .dead id := by
  have one : ∀ {a t}, Step handler s a t → t.sender ≠ s.sender → (∀ id, t.sender ≠ .dead id) →
      ∃ t, Reachable (Step handler) s t ∧ t.sender ≠ s.sender ∧ ∀ id, t.sender ≠ .dead id :=
    fun hstep hne halive => ⟨_, .tail .refl hstep, hne, halive⟩
  cases hs : s.sender with
  | idle =>
    cases hq : s.queued_commands with
    | nil => exact .inl ⟨rfl, rfl⟩
    | cons id rest => exact .inr (.inr (hs ▸ one (.get id rest hs hq) (by rw [hs]; nofun) nofun))
  | got id =>
    have hfree : s.send_lock = false := by
      rw [h.lock, hs]
      rfl
    exact .inr (.inr (hs ▸ one (.lock id hs hfree) (by rw [hs]; nofun) nofun))
  | locked id =>
    obtain ⟨call, body, hc, hbody⟩ := hpackable id hs
    exact .inr (.inr (hs ▸ one (.send id call body hs hc hbody) (by rw [hs]; nofun) nofun))
  | sent id => exact .inr (.inr (hs ▸ one (.unlock id hs) (by rw [hs]; nofun) nofun))
  | waiting id => exact .inr (.inl ⟨id, rfl⟩)
  | received id message =>
    have hcurrent : s.sender.current = some id := by
      rw [hs]
      rfl
    obtain ⟨call, hc, hblocked⟩ := h.current_call hcurrent
    by_cases hm : message.name ∈ call.op.expectedReplies
    · cases hp : call.phase with
      | waiting =>
        have hfree : call.phase.holdsCondition = false := by
          rw [hp]
          rfl
        exact .inr (.inr (hs ▸ one (.acquire id call message hs hc hm hfree) (by rw [hs]; nofun) nofun))
      | queued =>
        -- The caller releases its condition variable first.
        have hwait : Reachable (Step handler) s _ := .tail .refl (Step.wait id call hc hp)
        refine .inr (.inr ⟨_, hwait.tail (.acquire id { call with phase := .waiting } message hs ?_ hm rfl), nofun, nofun⟩)
        rw [getElem?_set_call hc, if_pos rfl]
      | acquired | notified | returned => exact absurd hblocked (by rw [hp]; exact False.elim)
    · exact .inr (.inr (hs ▸ one (.unexpected id call message hs hc hm) (by rw [hs]; nofun) nofun))
  | notifying id message =>
    have hcurrent : s.sender.current = some id := by
      rw [hs]
      rfl
    obtain ⟨call, hc, -⟩ := h.current_call hcurrent
    exact .inr (.inr (hs ▸ one (.notify id call message hs hc) (by rw [hs]; nofun) nofun))
  | dead id => exact absurd hs (h.alive id)

theorem Tended.survives (h : Tended s) (hpackable : Packable s) : Survives handler s where
  alive := h.alive
  progress := h.progress hpackable
  lock hs := h.lock.trans hs
  awake id call hc hfinished hblocked := by
    obtain ⟨-, hqueue, hcurrent⟩ := hfinished
    have hid := (h.blocked id call hc).mpr hblocked
    rw [State.pending, List.mem_append, Option.mem_toList] at hid
    rcases hid with hid | hid
    · exact h.alive id (hcurrent hid)
    · exact hqueue hid

/-- A step that does not meet the condition does its harm at once. -/
theorem Tended.served (h : Tended s) (hstep : Step handler s a t) (hsurvives : Survives handler t) : Served s a := by
  cases hstep with
  | lock id hs =>
    intro id' call hs' hc
    cases hs.symm.trans hs'
    cases hserialize : call.command.serialize with
    | ok body => exact ⟨body, rfl⟩
    | error e =>
      rcases hsurvives.progress with hidle | ⟨_, hwaiting⟩ | ⟨u, hreach, hne, halive⟩
      · cases hidle.1
      · cases hwaiting
      · have hdoomed : Doomed id u :=
          hreach.invariant ⟨.inl rfl, call, e, hc, hserialize⟩ fun _ _ _ h hstep => h.step hstep
        exact (hdoomed.sender.elim hne (halive id)).elim
  | sendRaises id => exact absurd rfl (hsurvives.alive id)
  | timeout id => exact absurd rfl (hsurvives.alive id)
  | unexpected id call message hs hc hm =>
    have hcurrent : s.sender.current = some id := by
      rw [hs]
      rfl
    obtain ⟨call', hc', hblocked⟩ := h.current_call hcurrent
    rw [hc] at hc'
    cases hc'
    have hnodup := h.nodup
    have hpending : s.pending = id :: s.queued_commands := by
      rw [State.pending, hs]
      rfl
    rw [hpending, List.nodup_cons] at hnodup
    have hfinished : Finished { s with sender := .idle } id call :=
      ⟨fun hp => by rw [hp] at hblocked; exact hblocked, hnodup.1, by simp [Sender.current]⟩
    exact (hsurvives.awake id call hc hfinished hblocked).elim
  | _ => trivial

/-! ### Runs -/

/-- `run_send` survives everything in a run exactly when every step of the run meets the condition. -/
theorem run_send_survives_iff (handler : AvatarMessage → Option Operation) (as : List Action) (s : State) :
    Run (fun s a t => Step handler s a t ∧ Survives handler t) State.init as s ↔
      Run (fun s a t => Step handler s a t ∧ Served s a) State.init as s := by
  have hkeep : ∀ s a t, Tended s ∧ Packable s → Step handler s a t → Served s a → Tended t ∧ Packable t :=
    fun s a t h hstep hserved => ⟨h.1.step h.2 hstep hserved, h.2.step h.1.known_current hstep hserved⟩
  refine Run.iff_of_invariant ⟨tended_init, nofun⟩ (fun s a t h hstep => hkeep s a t h hstep.1 hstep.2) ?_
  intro s a t h
  constructor
  · rintro ⟨hstep, hsurvives⟩
    exact ⟨hstep, h.1.served hstep hsurvives⟩
  · rintro ⟨hstep, hserved⟩
    obtain ⟨htended, hpackable⟩ := hkeep s a t h hstep hserved
    exact ⟨hstep, htended.survives hpackable⟩

/-- `set_register` with a negative value. -/
def setNegative : AvatarMessage :=
  ⟨0x04, "AVATAR_RPC_HTD_SET_REGISTER", [("register", .int 0), ("value", .int (-1))]⟩

/-- The state in which it has ended the send thread. -/
def deadState : State :=
  { State.init with
    calls := [⟨.setRegister 0 (-1), setNegative, .waiting, none⟩]
    sender := .dead 0
    send_lock := true }

theorem deadState_reachable : Reachable (Step handler) State.init deadState := by
  have h : Reachable (Step handler) State.init _ := .tail .refl (.call (.setRegister 0 (-1)) setNegative rfl)
  replace h := h.tail (.put 0 _ rfl rfl)
  replace h := h.tail (.wait 0 _ rfl rfl)
  replace h := h.tail (.get 0 [] rfl rfl)
  replace h := h.tail (.lock 0 rfl rfl)
  exact h.tail (.sendRaises 0 _ .structError rfl rfl rfl)

theorem not_run_send_survives : ¬∀ handler s, Reachable (Step handler) State.init s → Survives handler s := by
  intro h
  exact (h (fun _ => none) deadState deadState_reachable).alive 0 rfl

end AvatarProtocol

end Avatar
