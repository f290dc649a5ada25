import Avatar.Lib.StateExcept
import Avatar.Theorems.GdbReplies

/-! The stop replies of the GDB server. A debugger that has sent `c` or `s` waits for one; the server sends one for
    every event of a breakpoint or of the end of a step, whatever it was told before and whichever side the event comes
    from. -/

namespace Avatar.GdbServer
open Bytes StateExcept

variable {σ β P : Type}

/-- What a server is called with: the messages of the debugger by its receiver, and the events of the system by the
    thread that passes them on. -/
inductive Input (P : Type) where
  | packet (message : List Char)
  | event (evt : Event P)

namespace Input

def IsResume : Input P → Prop
  | packet message => message.head? = some 'c' ∨ message.head? = some 's'
  | event _ => False

def IsQuery : Input P → Prop
  | packet message => message.head? = some '?'
  | event _ => False

def IsStop : Input P → Prop
  | packet _ => False
  | event evt => .breakpoint ∈ evt.tags ∨ .endStepping ∈ evt.tags

instance (input : Input P) : Decidable input.IsResume :=
  match input with
  | packet _ => inferInstanceAs (Decidable (_ ∨ _))
  | event _ => inferInstanceAs (Decidable False)

instance (input : Input P) : Decidable input.IsQuery :=
  match input with
  | packet _ => inferInstanceAs (Decidable (_ = _))
  | event _ => inferInstanceAs (Decidable False)

instance (input : Input P) : Decidable input.IsStop :=
  match input with
  | packet _ => inferInstanceAs (Decidable False)
  | event _ => inferInstanceAs (Decidable (_ ∨ _))

end Input

def handle (debuggable : Debuggable σ β) : Input P → ServerM σ β Unit
  | .packet message => messageReceived debuggable message
  | .event evt => handleEvent evt

def stopReply : List Char := "S05".toList

/-- On this input the server sends a stop reply that does not answer `?`. -/
def SendsStop (debuggable : Debuggable σ β) (s : GdbServer σ β) (input : Input P) : Prop :=
  ¬input.IsQuery ∧ stopReply ∈ (final (handle debuggable input s)).sent.drop s.sent.length

instance (debuggable : Debuggable σ β) (s : GdbServer σ β) (input : Input P) :
    Decidable (SendsStop debuggable s input) := inferInstanceAs (Decidable (_ ∧ _))

/-- A server and the debugger that is connected to it -/
structure Session (σ β : Type) where
  server : GdbServer σ β
  /-- The number of inputs so far -/
  position : Nat
  /-- The positions of the resume packets that have no stop reply, the oldest first. A stop reply answers the oldest. -/
  unanswered : List Nat

def Session.next (debuggable : Debuggable σ β) (c : Session σ β) (input : Input P) : Session σ β where
  server := final (handle debuggable input c.server)
  position := c.position + 1
  unanswered :=
    if input.IsResume then c.unanswered ++ [c.position]
    else if SendsStop debuggable c.server input then c.unanswered.tail
    else c.unanswered

/-- The session after some inputs, in the order in which the two threads make the calls. A message that raises is the
    last one of its thread; here others may follow it. -/
def session (debuggable : Debuggable σ β) (s : GdbServer σ β) (inputs : List (Input P)) : Session σ β :=
  inputs.foldl (Session.next debuggable) ⟨s, 0, []⟩

/-- Each stop reply is caused by an event of the debuggable that is served, while one resume packet has no answer, and
    no other stop reply answers that packet. -/
structure StopsAnswer (debuggable : Debuggable σ β) (served : Source) (s : GdbServer σ β) (inputs : List (Input P)) :
    Prop where
  answers : ∀ before input, before ++ [input] <+: inputs →
    SendsStop debuggable (session debuggable s before).server input →
    (∃ evt, input = .event evt ∧ evt.source = served) ∧ ∃ j, (session debuggable s before).unanswered = [j]
  once : ∀ before input before' input' j, before ++ [input] <+: inputs → before' ++ [input'] <+: inputs →
    SendsStop debuggable (session debuggable s before).server input →
    SendsStop debuggable (session debuggable s before').server input' →
    (session debuggable s before).unanswered.head? = some j →
    (session debuggable s before').unanswered.head? = some j → before = before'

/-- Each event that stops comes from the debuggable that is served, and before it there is exactly one resume packet
    more than there are such events. -/
def Paired (served : Source) (inputs : List (Input P)) : Prop :=
  ∀ before evt, before ++ [.event evt] <+: inputs → (Input.event evt).IsStop →
    evt.source = served ∧ before.countP (·.IsResume) = before.countP (·.IsStop) + 1

/-! ### What a message makes the server send -/

/-- A server has sent no stop reply in between. -/
def Quiet (s s' : GdbServer σ β) : Prop := ∃ replies, s'.sent = s.sent ++ replies ∧ stopReply ∉ replies

instance : Std.Refl (Quiet (σ := σ) (β := β)) where
  refl _ := ⟨[], (List.append_nil _).symm, List.not_mem_nil⟩

instance : IsTrans (GdbServer σ β) Quiet where
  trans := by
    rintro s s' s'' ⟨replies, hsent, hquiet⟩ ⟨replies', hsent', hquiet'⟩
    refine ⟨replies ++ replies', by rw [hsent', hsent, List.append_assoc], fun hmem => ?_⟩
    rcases List.mem_append.mp hmem with hmem | hmem
    · exact hquiet hmem
    · exact hquiet' hmem

section Quiet
variable {α : Type}

theorem quiet_of_sent {s s' : GdbServer σ β} (h : s'.sent = s.sent) : Quiet s s' :=
  ⟨[], h.trans (List.append_nil _).symm, List.not_mem_nil⟩

theorem quiet_raises (x : Except PyException α) : Keeps Quiet (raises x : ServerM σ β α) := by
  intro s
  cases x with
  | ok a => exact quiet_of_sent rfl
  | error e => exact quiet_of_sent rfl

theorem quiet_debuggee (op : StateM σ α) : Keeps Quiet (debuggee op : ServerM σ β α) := fun _ => quiet_of_sent rfl

theorem quiet_breakpoint (address : Int) : Keeps Quiet (breakpoint address : ServerM σ β β) := by
  intro s
  unfold breakpoint
  split
  · exact quiet_of_sent rfl
  · exact quiet_of_sent rfl

theorem quiet_sendMessage {message : List Char} (h : message ≠ stopReply) :
    Keeps Quiet (sendMessage message : ServerM σ β Unit) := by
  refine (quiet_raises _).bind fun _ s => ⟨[message], rfl, fun hmem => ?_⟩
  exact h (List.mem_singleton.mp hmem).symm

/-- `S` is no digit. -/
theorem hexBytes_ne_stopReply (data : List Byte) : hexBytes data ≠ stopReply := by
  intro h
  have hmem : 'S' ∈ hexBytes data := h ▸ List.mem_cons_self
  obtain ⟨x, -, hx⟩ := List.mem_flatMap.mp hmem
  have hdigit : ∀ n < 16, Nat.digitChar n ≠ 'S' := by decide
  have hlt := x.isLt
  rw [Numeral.hex2_of_lt hlt] at hx
  rcases List.mem_pair.mp hx with hx | hx
  · exact hdigit _ (by omega) hx.symm
  · exact hdigit _ (by omega) hx.symm

theorem ok_ne_stopReply : "OK".toList ≠ stopReply := by decide

section Messages
variable (debuggable : Debuggable σ β) (arguments : List Char)

theorem quiet_readMemory : Keeps Quiet (readMemory debuggable arguments) := by
  refine (quiet_raises _).bind fun address => (quiet_raises _).bind fun size => Keeps.ite ?_ ?_
  · exact (quiet_debuggee _).bind fun _ => (quiet_raises _).bind fun _ => quiet_sendMessage (hexBytes_ne_stopReply _)
  · exact (quiet_debuggee _).bind fun _ => quiet_sendMessage (hexBytes_ne_stopReply _)

theorem quiet_writeMemory : Keeps Quiet (writeMemory debuggable arguments) := by
  refine (quiet_raises _).bind fun _ => (quiet_raises _).bind fun _ => (quiet_raises _).bind fun _ =>
    (quiet_raises _).bind fun _ => (quiet_raises _).bind fun data => Keeps.ite ?_ (Keeps.throw _)
  refine Keeps.ite ((quiet_debuggee _).bind fun _ => ?_) ((quiet_debuggee _).bind fun _ => ?_)
  · exact quiet_sendMessage ok_ne_stopReply
  · exact quiet_sendMessage ok_ne_stopReply

theorem quiet_readRegisters : Keeps Quiet (readRegisters debuggable) := by
  rw [readRegisters, RegisterAccess.readRegisters]
  simp only [Debuggable.registerAccess_getRegister, debuggee_returning, raises_registerAccess, sendMessage_registerAccess]
  exact (Keeps.mapM fun _ => quiet_debuggee _).bind fun _ => (quiet_raises _).bind fun _ =>
    quiet_sendMessage (hexBytes_ne_stopReply _)

theorem quiet_writeRegisters : Keeps Quiet (writeRegisters debuggable arguments) := by
  rw [writeRegisters, RegisterAccess.writeRegisters]
  simp only [Debuggable.registerAccess_setRegister, debuggee_returning, raises_registerAccess, sendMessage_registerAccess]
  exact (quiet_raises _).bind fun _ => (quiet_raises _).bind fun _ =>
    (Keeps.forM fun _ => quiet_debuggee _).bind fun _ => quiet_sendMessage ok_ne_stopReply

theorem quiet_readRegister : Keeps Quiet (readRegister debuggable arguments) := by
  rw [readRegister, RegisterAccess.readRegister]
  simp only [Debuggable.registerAccess_getRegisterFromNr, debuggee_returning, raises_registerAccess,
    sendMessage_registerAccess]
  exact (quiet_raises _).bind fun _ => (quiet_debuggee _).bind fun _ => (quiet_raises _).bind fun _ =>
    quiet_sendMessage (hexBytes_ne_stopReply _)

theorem quiet_writeRegister : Keeps Quiet (writeRegister debuggable arguments) := by
  rw [writeRegister, RegisterAccess.writeRegister]
  simp only [Debuggable.registerAccess_setRegister, debuggee_returning, raises_registerAccess, sendMessage_registerAccess]
  exact (quiet_raises _).bind fun _ => (quiet_raises _).bind fun _ => (quiet_raises _).bind fun _ =>
    (quiet_debuggee _).bind fun _ => quiet_sendMessage ok_ne_stopReply

theorem quiet_removeBreakpoint : Keeps Quiet (removeBreakpoint debuggable arguments) := by
  refine (quiet_raises _).bind fun _ => (quiet_raises _).bind fun _ => (quiet_raises _).bind fun _ =>
    Keeps.ite ?_ (Keeps.throw _)
  refine (quiet_breakpoint _).bind fun _ => (quiet_debuggee _).bind fun _ => Keeps.bind ?_ fun _ =>
    quiet_sendMessage ok_ne_stopReply
  exact fun _ => quiet_of_sent rfl

theorem quiet_insertBreakpoint : Keeps Quiet (insertBreakpoint debuggable arguments) := by
  refine (quiet_raises _).bind fun _ => (quiet_raises _).bind fun _ => (quiet_raises _).bind fun _ =>
    Keeps.ite ?_ (Keeps.throw _)
  refine (quiet_debuggee _).bind fun _ => Keeps.bind ?_ fun _ => quiet_sendMessage ok_ne_stopReply
  exact fun _ => quiet_of_sent rfl

theorem quiet_messageReceived {message : List Char} (h : message.head? ≠ some '?') :
    Keeps Quiet (messageReceived debuggable message) := by
  unfold messageReceived
  split
  · exact Keeps.throw _
  · exact quiet_readMemory debuggable _
  · exact quiet_writeMemory debuggable _
  · exact quiet_readRegisters debuggable
  · exact quiet_writeRegisters debuggable _
  · exact quiet_readRegister debuggable _
  · exact quiet_writeRegister debuggable _
  · exact quiet_debuggee _
  · exact quiet_removeBreakpoint debuggable _
  · exact quiet_insertBreakpoint debuggable _
  · exact absurd rfl h
  · exact quiet_debuggee _
  · exact quiet_sendMessage (by decide)

end Messages

/-- A stop reply is sent exactly for the events that stop. -/
theorem sendsStop_iff {debuggable : Debuggable σ β} {s : GdbServer σ β} {input : Input P} :
    SendsStop debuggable s input ↔ input.IsStop := by
  cases input with
  | packet message =>
    refine iff_of_false ?_ id
    rintro ⟨hquery, hsent⟩
    obtain ⟨replies, heq, hquiet⟩ := quiet_messageReceived debuggable hquery s
    rw [handle, heq, List.drop_left] at hsent
    exact hquiet hsent
  | event evt =>
    rw [SendsStop, handle, handleEvent]
    by_cases hstop : .breakpoint ∈ evt.tags ∨ .endStepping ∈ evt.tags
    · rw [if_pos hstop]
      refine iff_of_true ⟨id, ?_⟩ hstop
      have hascii : Ascii.IsAscii "S05".toList := by decide
      rw [sendMessage_ok hascii, final, List.drop_left]
      exact List.mem_singleton_self _
    · rw [if_neg hstop]
      refine iff_of_false ?_ hstop
      rintro ⟨-, hsent⟩
      have hnil : s.sent.drop s.sent.length = [] := List.drop_length
      rw [show final ((pure () : ServerM σ β Unit) s) = s from rfl, hnil] at hsent
      cases hsent

end Quiet

/-! ### Sessions -/

section Session
variable {debuggable : Debuggable σ β} {served : Source} {s : GdbServer σ β} {inputs before : List (Input P)}
  {input : Input P} {c : Session σ β} {j : Nat}

theorem not_isResume_of_isStop (h : input.IsStop) : ¬input.IsResume := by
  cases input with
  | packet => exact absurd h id
  | event => exact id

theorem unanswered_resume (h : input.IsResume) : (c.next debuggable input).unanswered = c.unanswered ++ [c.position] :=
  if_pos h

theorem unanswered_stop (h : input.IsStop) : (c.next debuggable input).unanswered = c.unanswered.tail := by
  rw [Session.next]
  dsimp only
  rw [if_neg (not_isResume_of_isStop h), if_pos (sendsStop_iff.mpr h)]

theorem unanswered_other (hresume : ¬input.IsResume) (hstop : ¬input.IsStop) :
    (c.next debuggable input).unanswered = c.unanswered := by
  rw [Session.next]
  dsimp only
  rw [if_neg hresume, if_neg fun h => hstop (sendsStop_iff.mp h)]

theorem session_concat (before : List (Input P)) (input : Input P) :
    session debuggable s (before ++ [input]) = (session debuggable s before).next debuggable input :=
  List.foldl_concat ..

theorem position_session : (session debuggable s before).position = before.length := by
  induction before using List.reverseRecOn with
  | nil => rfl
  | append_singleton before input ih =>
    rw [session_concat, List.length_append, ← ih]
    rfl

/-- The packets without an answer are in the order in which they came. -/
theorem ordered_unanswered (debuggable : Debuggable σ β) (s : GdbServer σ β) (before : List (Input P)) :
    (session debuggable s before).unanswered.Pairwise (· < ·) ∧
    ∀ k ∈ (session debuggable s before).unanswered, k < before.length := by
  induction before using List.reverseRecOn with
  | nil => exact ⟨.nil, fun k hk => absurd hk List.not_mem_nil⟩
  | append_singleton before input ih =>
    obtain ⟨hordered, hlt⟩ := ih
    rw [session_concat, List.length_append, List.length_singleton]
    by_cases hresume : input.IsResume
    · rw [unanswered_resume hresume, position_session]
      refine ⟨List.pairwise_append.mpr ⟨hordered, List.pairwise_singleton .., fun k hk k' hk' => ?_⟩, fun k hk => ?_⟩
      · rw [List.mem_singleton.mp hk']
        exact hlt k hk
      · rcases List.mem_append.mp hk with hk | hk
        · exact Nat.lt_succ_of_lt (hlt k hk)
        · rw [List.mem_singleton.mp hk]
          exact Nat.lt_succ_self _
    · by_cases hstop : input.IsStop
      · rw [unanswered_stop hstop]
        exact ⟨hordered.tail, fun k hk => Nat.lt_succ_of_lt (hlt k (List.mem_of_mem_tail hk))⟩
      · rw [unanswered_other hresume hstop]
        exact ⟨hordered, fun k hk => Nat.lt_succ_of_lt (hlt k hk)⟩

/-- After a packet has been answered, only later ones are without an answer. -/
theorem lt_of_mem_unanswered (hstop : input.IsStop) (hhead : (session debuggable s before).unanswered.head? = some j)
    (rest : List (Input P)) : ∀ k ∈ (session debuggable s (before ++ [input] ++ rest)).unanswered, j < k := by
  obtain ⟨hordered, hlt⟩ := ordered_unanswered debuggable s before
  obtain ⟨later, heq⟩ := List.head?_eq_some_iff.mp hhead
  rw [heq] at hordered hlt
  induction rest using List.reverseRecOn with
  | nil =>
    rw [List.append_nil, session_concat, unanswered_stop hstop, heq]
    exact (List.pairwise_cons.mp hordered).1
  | append_singleton rest input' ih =>
    intro k hk
    rw [← List.append_assoc, session_concat] at hk
    by_cases hresume : input'.IsResume
    · rw [unanswered_resume hresume, position_session] at hk
      rcases List.mem_append.mp hk with hk | hk
      · exact ih k hk
      · have hj := hlt j (.head _)
        rw [List.mem_singleton.mp hk, List.length_append, List.length_append]
        omega
    · by_cases hstop' : input'.IsStop
      · rw [unanswered_stop hstop'] at hk
        exact ih k (List.mem_of_mem_tail hk)
      · rw [unanswered_other hresume hstop'] at hk
        exact ih k hk

/-- As long as each stop reply finds a packet to answer, the packets without an answer are as many more as there are
    resume packets than events that stop. -/
theorem length_unanswered (h : ∀ b i, b ++ [i] <+: before → i.IsStop →
      (session debuggable s b).unanswered.length + b.countP (·.IsStop) = b.countP (·.IsResume) →
      (session debuggable s b).unanswered ≠ []) :
    (session debuggable s before).unanswered.length + before.countP (·.IsStop) = before.countP (·.IsResume) := by
  induction before using List.reverseRecOn with
  | nil => rfl
  | append_singleton before input ih =>
    have ih := ih fun b i hpre => h b i (hpre.trans (List.prefix_append ..))
    rw [session_concat, List.countP_append, List.countP_append, List.countP_singleton, List.countP_singleton]
    by_cases hresume : input.IsResume
    · have hstop : ¬input.IsStop := fun hstop => not_isResume_of_isStop hstop hresume
      rw [unanswered_resume hresume, List.length_append, List.length_singleton, if_pos (decide_eq_true hresume),
        if_neg (by simpa using hstop)]
      omega
    · by_cases hstop : input.IsStop
      · have hne := h before input List.prefix_rfl hstop ih
        have hpos := List.length_pos_of_ne_nil hne
        rw [unanswered_stop hstop, List.length_tail, if_pos (decide_eq_true hstop), if_neg (by simpa using hresume)]
        omega
      · rw [unanswered_other hresume hstop, if_neg (by simpa using hstop), if_neg (by simpa using hresume)]
        omega

/-- The server's stop replies answer resume packets exactly if the events that stop and the resume packets alternate
    in this way. -/
theorem stopsAnswer_iff (debuggable : Debuggable σ β) (served : Source) (s : GdbServer σ β) (inputs : List (Input P)) :
    StopsAnswer debuggable served s inputs ↔ Paired served inputs := by
  constructor
  · rintro ⟨hanswers, -⟩ before evt hpre hstop
    obtain ⟨⟨_, heq, hsource⟩, j, hj⟩ := hanswers before _ hpre (sendsStop_iff.mpr hstop)
    cases heq
    have hlength : (session debuggable s before).unanswered.length + before.countP (·.IsStop) =
        before.countP (·.IsResume) := by
      refine length_unanswered fun b i hb hi _ => ?_
      have hpre' : b ++ [i] <+: inputs := hb.trans ((List.prefix_append ..).trans hpre)
      obtain ⟨-, k, hk⟩ := hanswers b i hpre' (sendsStop_iff.mpr hi)
      rw [hk]
      exact List.cons_ne_nil k []
    rw [hj, List.length_singleton] at hlength
    exact ⟨hsource, by omega⟩
  · intro hpaired
    constructor
    · intro before input hpre hsends
      have hlength : (session debuggable s before).unanswered.length + before.countP (·.IsStop) =
          before.countP (·.IsResume) := by
        refine length_unanswered fun b i hb hi hlength hnil => ?_
        cases i with
        | packet => exact hi
        | event evt =>
          have hcount := (hpaired b evt (hb.trans ((List.prefix_append ..).trans hpre)) hi).2
          rw [hnil, List.length_nil] at hlength
          omega
      have hstop := sendsStop_iff.mp hsends
      cases input with
      | packet => exact absurd hstop id
      | event evt =>
        obtain ⟨hsource, hcount⟩ := hpaired before evt hpre hstop
        exact ⟨⟨evt, rfl, hsource⟩, List.length_eq_one_iff.mp (by omega)⟩
    · intro before input before' input' j hpre hpre' hsends hsends' hhead hhead'
      have hfirst := lt_of_mem_unanswered (sendsStop_iff.mp hsends) hhead
      have hfirst' := lt_of_mem_unanswered (sendsStop_iff.mp hsends') hhead'
      rcases List.prefix_or_prefix_of_prefix hpre hpre' with hle | hle
      · rcases List.prefix_concat_iff.mp hle with heq | ⟨rest, rfl⟩
        · exact (List.append_inj' heq rfl).1
        · exact absurd (hfirst rest j (List.mem_of_mem_head? hhead')) (Nat.lt_irrefl j)
      · rcases List.prefix_concat_iff.mp hle with heq | ⟨rest, rfl⟩
        · exact (List.append_inj' heq rfl).1.symm
        · exact absurd (hfirst' rest j (List.mem_of_mem_head? hhead)) (Nat.lt_irrefl j)

/-- The debugger lets the emulator run, and is told that it has stopped when the target hits a breakpoint. -/
theorem not_stopsAnswer_target : ¬StopsAnswer nullDebuggable .emulator ⟨(), ∅, []⟩
    [.packet "c".toList, .event (⟨[.stopped, .breakpoint], .target, none⟩ : Event Unit)] := by
  intro h
  have hanswers := h.answers [.packet "c".toList] _ List.prefix_rfl (sendsStop_iff.mpr (.inl (by decide)))
  obtain ⟨⟨_, heq, hsource⟩, -⟩ := hanswers
  cases heq
  cases hsource

end Session

end Avatar.GdbServer
