import Mathlib.Data.List.Forall2
import Avatar.Lib.Traversal
import Avatar.Interfaces.S2eRemoteMemory

/-! The remote memory interface reads exactly the requests that are sent. A request is an object, so nothing in front
    of its end is a JSON text, and the buffer holds at most white space when the next one begins. -/

namespace Avatar.S2ERemoteMemoryInterface
open Bytes StateExcept

/-! ### Requests -/

/-- The last member with a key -/
def Has (members : List (Json.Str × Json)) (key : String) (v : Json) : Prop :=
  ∃ before after, members = before ++ (Json.units key, v) :: after ∧ Json.units key ∉ after.map Prod.fst

/-- A string that is the hexadecimal numeral of a number -/
def IsHex (v : Json) (n : Int) : Prop := ∃ text : List Char, v = .str (text.map Char.toNat) ∧ Numeral.parse 16 text = some n

/-- A hexadecimal number among the parameters -/
def HasParam (members : List (Json.Str × Json)) (key : String) (n : Int) : Prop :=
  ∃ params v, Has members "params" (.obj params) ∧ Has params key v ∧ IsHex v n

/-- The members of an object that ask for a call -/
inductive Asks (members : List (Json.Str × Json)) : Call → Prop where
  | read {address size : Int} {cpu_state : Json} : Has members "cmd" (str "read") → HasParam members "address" address →
      HasParam members "size" size → Has members "cpu_state" cpu_state → Asks members (.read address size cpu_state)
  | write {address size value : Int} {cpu_state : Json} : Has members "cmd" (str "write") →
      HasParam members "address" address → HasParam members "size" size → HasParam members "value" value →
      Has members "cpu_state" cpu_state → Asks members (.write address size value cpu_state)
  | setCpuState {cpu_state : Json} : Has members "cmd" (str "set_cpu_state") → Has members "cpu_state" cpu_state →
      Asks members (.setCpuState cpu_state)
  | getCpuState : Has members "cmd" (str "get_cpu_state") → Asks members .getCpuState
  | cont : Has members "cmd" (str "continue") → Asks members .cont
  | getChecksum {address size : Int} : Has members "cmd" (str "get_checksum") → HasParam members "address" address →
      HasParam members "size" size → Asks members (.getChecksum address size)

/-- What the reply to a call is called -/
def Call.reply : Call → Option String
  | read .. => some "read"
  | write .. => none
  | setCpuState _ => some "done"
  | getCpuState => some "get_cpu_state"
  | cont => some "done"
  | getChecksum .. => some "done"

/-- One line with an object that replies to a call -/
def Answers (call : Call) (text : List Char) : Prop :=
  ∃ name members, call.reply = some name ∧ Has members "reply" (str name) ∧ text = (Json.obj members).dumps ++ ['\n'] ∧
    '\n' ∉ (Json.obj members).dumps

/-- A request as it is sent: white space, and the text of an object that asks for a call. -/
structure Message where
  space : List Char
  text : List Char
  members : List (Json.Str × Json)
  call : Call
  blank : Json.Space space
  isText : ∃ n, Json.Text n (.obj members) text
  ascii : Ascii.IsAscii (space ++ text)
  asks : Asks members call

/-! ### Handlers -/

section Handlers
variable {σ α : Type} (handlers : Handlers σ)

/-- A handler without the value that it returns -/
def effect (handler : HandlerM σ α) : HandlerM σ Unit := (fun _ => ()) <$> handler

/-- What a call does, if its handler has been set -/
def Handlers.handler : Call → Option (HandlerM σ Unit)
  | .read address size cpu_state => handlers.read.map fun read => effect (read address size cpu_state)
  | .write address size value cpu_state => handlers.write.map fun write => effect (write address size value cpu_state)
  | .setCpuState cpu_state => handlers.setCpuState.map fun setCpuState => effect (setCpuState cpu_state)
  | .getCpuState => handlers.getCpuState.map effect
  | .cont => handlers.cont.map effect
  | .getChecksum address size => handlers.getChecksum.map fun getChecksum => effect (getChecksum address size)

def Handlers.isSet (call : Call) : Bool := (handlers.handler call).isSome

/-- The state behind the handlers after a call, also after one that raises -/
def Handlers.afterCall (handled : σ) (call : Call) : σ :=
  match handlers.handler call with
  | some handler => final (handler handled)
  | none => handled

/-- The state behind the handlers after calls of them, one after the other -/
def Handlers.after (handled : σ) (calls : List Call) : σ := calls.foldl handlers.afterCall handled

/-- Every one of the calls returns. -/
def Handlers.Succeed : σ → List Call → Prop
  | _, [] => True
  | handled, call :: calls => ∃ handler handled', handlers.handler call = some handler ∧
      handler handled = .ok () handled' ∧ Succeed handled' calls

theorem Handlers.succeed_append {handled : σ} {calls calls' : List Call}
    (h : handlers.Succeed handled (calls ++ calls')) :
    handlers.Succeed handled calls ∧ handlers.Succeed (handlers.after handled calls) calls' := by
  induction calls generalizing handled with
  | nil => exact ⟨trivial, h⟩
  | cons call calls ih =>
    obtain ⟨handler, handled', hhandler, hrun, hrest⟩ := h
    obtain ⟨hcalls, hcalls'⟩ := ih hrest
    have hafter : handlers.afterCall handled call = handled' := by
      simp only [afterCall, hhandler, hrun]
      rfl
    refine ⟨⟨handler, handled', hhandler, hrun, hcalls⟩, ?_⟩
    rwa [after, List.foldl_cons, hafter]

end Handlers

/-! ### Members -/

section Members
variable {members params : List (Json.Str × Json)} {key : String} {v : Json} {n : Int}

theorem getItem_of_has (h : Has members key v) : getItem (.obj members) key = .ok v := by
  obtain ⟨before, after, rfl, hafter⟩ := h
  have hlookup : (before ++ (Json.units key, v) :: after).reverse.lookup (Json.units key) = some v := by
    have hnone : after.reverse.lookup (Json.units key) = none := by
      rw [List.lookup_eq_none_iff]
      intro m hm
      have hne : Json.units key ≠ m.1 := fun heq => hafter (heq ▸ List.mem_map_of_mem (List.mem_reverse.mp hm))
      simpa using hne
    rw [List.reverse_append, List.reverse_cons, List.append_assoc, List.lookup_append, hnone, Option.none_or]
    exact List.lookup_cons_self
  rw [getItem, hlookup]

theorem hexInt_of_isHex (h : IsHex v n) : hexInt v = .ok n := by
  obtain ⟨text, rfl, hparse⟩ := h
  have htext : (text.map Char.toNat).map Char.ofNat = text := by
    rw [List.map_map]
    exact (List.map_congr_left fun c _ => Char.ofNat_toNat c).trans (List.map_id text)
  rw [hexInt, htext, int, hparse]

theorem param_of_hasParam (h : HasParam members key n) : param (.obj members) key = .ok n := by
  obtain ⟨params, v, hparams, hv, hn⟩ := h
  rw [param, getItem_of_has hparams]
  show (getItem (.obj params) key >>= hexInt) = _
  rw [getItem_of_has hv]
  exact hexInt_of_isHex hn

theorem has_setItem (members : List (Json.Str × Json)) (key : String) (v : Json) : Has (setItem members key v) key v := by
  rw [setItem]
  split_ifs with hmem
  · induction members with
    | nil => cases hmem
    | cons m members ih =>
      by_cases hrest : Json.units key ∈ members.map Prod.fst
      · obtain ⟨before, after, heq, hafter⟩ := ih hrest
        exact ⟨_ :: before, after, by rw [List.map_cons, heq, List.cons_append], hafter⟩
      · -- The key of the first member, and of no other.
        have hkey : m.1 = Json.units key := by
          rcases List.mem_cons.mp hmem with heq | hmem
          · exact heq.symm
          · exact absurd hmem hrest
        have hother : members.map (fun m => if m.1 = Json.units key then (m.1, v) else m) = members := by
          refine (List.map_congr_left fun m' hm' => ?_).trans (List.map_id _)
          refine if_neg fun heq => hrest ?_
          rw [← heq]
          exact List.mem_map_of_mem hm'
        exact ⟨[], members, by rw [List.map_cons, if_pos hkey, hother, hkey]; rfl, hrest⟩
  · exact ⟨members, [], rfl, List.not_mem_nil⟩

end Members

/-! ### One request -/

theorem isStr_str (s : String) : isStr (str s) s = true := by
  simp [isStr, str]

section Request
variable {σ α : Type} {handlers : Handlers σ} {members : List (Json.Str × Json)} {call : Call}

/-- The handler has been called, and if it has returned the call has got its reply. -/
def ServedCall (handlers : Handlers σ) (call : Call) (s s' : RunState σ) : Prop :=
  ∃ returned lines, s' = { s with
      handled := handlers.after s.handled [call]
      calls := s.calls ++ [⟨call, returned⟩]
      sent := s.sent ++ lines } ∧
    (handlers.Succeed s.handled [call] → List.Forall₂ Answers ([call].filter (·.reply.isSome)) lines)

theorem callHandler_cases {handler : HandlerM σ α} (h : handlers.handler call = some (effect handler))
    (s : RunState σ) :
    (∃ a, callHandler call (some handler) s =
        .ok a { s with handled := handlers.after s.handled [call], calls := s.calls ++ [⟨call, true⟩] }) ∨
      (∃ e, callHandler call (some handler) s =
        .error e { s with handled := handlers.after s.handled [call], calls := s.calls ++ [⟨call, false⟩] }) ∧
        ¬handlers.Succeed s.handled [call] := by
  have hafter : handlers.after s.handled [call] = final (effect handler s.handled) := by
    simp only [Handlers.after, List.foldl_cons, List.foldl_nil, Handlers.afterCall, h]
  rw [hafter, callHandler]
  cases hrun : handler s.handled with
  | ok a handled =>
    have heffect : effect handler s.handled = .ok () handled := by
      simp only [effect, Functor.map, EStateM.map, hrun]
    rw [heffect]
    exact .inl ⟨a, rfl⟩
  | error e handled =>
    have heffect : effect handler s.handled = .error e handled := by
      simp only [effect, Functor.map, EStateM.map, hrun]
    rw [heffect]
    refine .inr ⟨⟨e, rfl⟩, ?_⟩
    rintro ⟨handler', handled', hhandler', hrun', -⟩
    cases h.symm.trans hhandler'
    cases heffect.symm.trans hrun'

theorem served_reply {handler : HandlerM σ α} {reply : α → List (Json.Str × Json)} {name : String}
    (h : handlers.handler call = some (effect handler)) (hname : call.reply = some name)
    (hreply : ∀ a, Has (reply a) "reply" (str name)) (s : RunState σ) :
    ServedCall handlers call s (final ((callHandler call (some handler) >>= fun a => sendReply (reply a)) s)) := by
  rcases callHandler_cases h s with ⟨a, hcall⟩ | ⟨⟨e, hcall⟩, hfails⟩
  · rw [bind_ok hcall]
    refine ⟨true, [(Json.obj (reply a)).dumps ++ ['\n']], rfl, fun _ => ?_⟩
    rw [List.filter_cons_of_pos (by rw [hname]; rfl)]
    exact .cons ⟨name, reply a, hname, hreply a, rfl, Json.newline_notMem_dumps _⟩ .nil
  · rw [bind_error hcall]
    exact ⟨false, [], by rw [List.append_nil]; rfl, fun h => absurd h hfails⟩

theorem served_silent {handler : HandlerM σ α} (h : handlers.handler call = some (effect handler))
    (hname : call.reply = none) (s : RunState σ) :
    ServedCall handlers call s (final (callHandler call (some handler) s)) := by
  rcases callHandler_cases h s with ⟨a, hcall⟩ | ⟨⟨e, hcall⟩, hfails⟩
  · rw [hcall]
    refine ⟨true, [], by rw [List.append_nil]; rfl, fun _ => ?_⟩
    rw [List.filter_cons_of_neg (by rw [hname]; exact Bool.false_ne_true)]
    exact .nil
  · rw [hcall]
    exact ⟨false, [], by rw [List.append_nil]; rfl, fun h => absurd h hfails⟩

theorem has_cons {key : String} {v : Json} (h : Json.units key ∉ members.map Prod.fst) :
    Has ((Json.units key, v) :: members) key v := ⟨[], members, rfl, h⟩

/-- The reply has a value beside its name. -/
theorem has_reply (name : String) (v : Json) :
    Has [(Json.units "reply", str name), (Json.units "value", v)] "reply" (str name) := by
  have hne : Json.units "reply" ≠ Json.units "value" := by decide
  exact has_cons (by simpa using hne)

/-! Each command in turn: what is read of the request, and the call. -/

section Commands
variable {address size value : Int} {cpu_state : Json} (handlers) (s : RunState σ)

theorem handle_read (hcmd : Has members "cmd" (str "read")) (haddress : HasParam members "address" address)
    (hsize : HasParam members "size" size) (hstate : Has members "cpu_state" cpu_state) :
    handle handlers (.obj members) s = (callHandler (.read address size cpu_state)
      (handlers.read.map fun read => read address size cpu_state) >>= fun value =>
        sendReply [(Json.units "reply", str "read"), (Json.units "value", hexText value)]) s := by
  rw [handle, bind_ok (lift_ok (getItem_of_has hcmd) s), if_pos (isStr_str "read"),
    bind_ok (lift_ok (param_of_hasParam haddress) s), bind_ok (lift_ok (param_of_hasParam hsize) s),
    bind_ok (lift_ok (getItem_of_has hstate) s)]

theorem handle_write (hcmd : Has members "cmd" (str "write")) (haddress : HasParam members "address" address)
    (hsize : HasParam members "size" size) (hvalue : HasParam members "value" value)
    (hstate : Has members "cpu_state" cpu_state) :
    handle handlers (.obj members) s = callHandler (.write address size value cpu_state)
      (handlers.write.map fun write => write address size value cpu_state) s := by
  have hread : ¬isStr (str "write") "read" = true := by decide
  rw [handle, bind_ok (lift_ok (getItem_of_has hcmd) s), if_neg hread, if_pos (isStr_str "write"),
    bind_ok (lift_ok (param_of_hasParam haddress) s), bind_ok (lift_ok (param_of_hasParam hsize) s),
    bind_ok (lift_ok (param_of_hasParam hvalue) s), bind_ok (lift_ok (getItem_of_has hstate) s)]

theorem handle_setCpuState (hcmd : Has members "cmd" (str "set_cpu_state")) (hstate : Has members "cpu_state" cpu_state) :
    handle handlers (.obj members) s = (callHandler (.setCpuState cpu_state)
      (handlers.setCpuState.map fun setCpuState => setCpuState cpu_state) >>= fun _ =>
        sendReply [(Json.units "reply", str "done")]) s := by
  have hread : ¬isStr (str "set_cpu_state") "read" = true := by decide
  have hwrite : ¬isStr (str "set_cpu_state") "write" = true := by decide
  rw [handle, bind_ok (lift_ok (getItem_of_has hcmd) s), if_neg hread, if_neg hwrite,
    if_pos (isStr_str "set_cpu_state"), bind_ok (lift_ok (getItem_of_has hstate) s)]

theorem handle_getCpuState (hcmd : Has members "cmd" (str "get_cpu_state")) :
    handle handlers (.obj members) s = (callHandler .getCpuState handlers.getCpuState >>= fun ret =>
      sendReply (setItem ret "reply" (str "get_cpu_state"))) s := by
  have hread : ¬isStr (str "get_cpu_state") "read" = true := by decide
  have hwrite : ¬isStr (str "get_cpu_state") "write" = true := by decide
  have hset : ¬isStr (str "get_cpu_state") "set_cpu_state" = true := by decide
  rw [handle, bind_ok (lift_ok (getItem_of_has hcmd) s), if_neg hread, if_neg hwrite, if_neg hset,
    if_pos (isStr_str "get_cpu_state")]

theorem handle_continue (hcmd : Has members "cmd" (str "continue")) :
    handle handlers (.obj members) s = (callHandler .cont handlers.cont >>= fun _ =>
      sendReply [(Json.units "reply", str "done")]) s := by
  have hread : ¬isStr (str "continue") "read" = true := by decide
  have hwrite : ¬isStr (str "continue") "write" = true := by decide
  have hset : ¬isStr (str "continue") "set_cpu_state" = true := by decide
  have hget : ¬isStr (str "continue") "get_cpu_state" = true := by decide
  rw [handle, bind_ok (lift_ok (getItem_of_has hcmd) s), if_neg hread, if_neg hwrite, if_neg hset, if_neg hget,
    if_pos (isStr_str "continue")]

theorem handle_getChecksum (hcmd : Has members "cmd" (str "get_checksum")) (haddress : HasParam members "address" address)
    (hsize : HasParam members "size" size) :
    handle handlers (.obj members) s = (callHandler (.getChecksum address size)
      (handlers.getChecksum.map fun getChecksum => getChecksum address size) >>= fun ret =>
        sendReply [(Json.units "reply", str "done"), (Json.units "value", hexText8 ret)]) s := by
  have hread : ¬isStr (str "get_checksum") "read" = true := by decide
  have hwrite : ¬isStr (str "get_checksum") "write" = true := by decide
  have hset : ¬isStr (str "get_checksum") "set_cpu_state" = true := by decide
  have hget : ¬isStr (str "get_checksum") "get_cpu_state" = true := by decide
  have hcont : ¬isStr (str "get_checksum") "continue" = true := by decide
  have hbuffer : ¬isStr (str "get_checksum") "write_buffer" = true := by decide
  rw [handle, bind_ok (lift_ok (getItem_of_has hcmd) s), if_neg hread, if_neg hwrite, if_neg hset, if_neg hget,
    if_neg hcont, if_neg hbuffer, if_pos (isStr_str "get_checksum"),
    bind_ok (lift_ok (param_of_hasParam haddress) s), bind_ok (lift_ok (param_of_hasParam hsize) s)]

end Commands

theorem served_asks (hset : handlers.isSet call = true) (h : Asks members call) (s : RunState σ) :
    ServedCall handlers call s (final (handle handlers (.obj members) s)) := by
  obtain ⟨handler, hhandler⟩ := Option.isSome_iff_exists.mp hset
  cases h with
  | read hcmd haddress hsize hstate =>
    obtain ⟨read, hread, rfl⟩ := Option.map_eq_some_iff.mp hhandler
    rw [handle_read handlers s hcmd haddress hsize hstate, hread]
    exact served_reply hhandler rfl (fun value => has_reply "read" _) s
  | write hcmd haddress hsize hvalue hstate =>
    obtain ⟨write, hwrite, rfl⟩ := Option.map_eq_some_iff.mp hhandler
    rw [handle_write handlers s hcmd haddress hsize hvalue hstate, hwrite]
    exact served_silent hhandler rfl s
  | setCpuState hcmd hstate =>
    obtain ⟨setCpuState, hsetCpuState, rfl⟩ := Option.map_eq_some_iff.mp hhandler
    rw [handle_setCpuState handlers s hcmd hstate, hsetCpuState]
    exact served_reply hhandler rfl (fun _ => has_cons List.not_mem_nil) s
  | getCpuState hcmd =>
    obtain ⟨getCpuState, hgetCpuState, rfl⟩ := Option.map_eq_some_iff.mp hhandler
    rw [handle_getCpuState handlers s hcmd, hgetCpuState]
    exact served_reply hhandler rfl (fun ret => has_setItem ret "reply" _) s
  | cont hcmd =>
    obtain ⟨cont, hcont, rfl⟩ := Option.map_eq_some_iff.mp hhandler
    rw [handle_continue handlers s hcmd, hcont]
    exact served_reply hhandler rfl (fun _ => has_cons List.not_mem_nil) s
  | getChecksum hcmd haddress hsize =>
    obtain ⟨getChecksum, hgetChecksum, rfl⟩ := Option.map_eq_some_iff.mp hhandler
    rw [handle_getChecksum handlers s hcmd haddress hsize, hgetChecksum]
    exact served_reply hhandler rfl (fun ret => has_reply "done" _) s

end Request

/-! ### Bytes -/

section Received
variable {σ : Type} {handlers : Handlers σ} {s : RunState σ} {c : Char} {t : List Char}
  {members : List (Json.Str × Json)} {call : Call}

theorem decodeAscii_byte (hc : c.toNat < 128) : decodeAscii [Ascii.byte c] = .ok [c] := by
  have h := Ascii.decode_map_byte (List.forall_mem_singleton.mpr hc)
  rw [List.map_singleton] at h
  rw [decodeAscii, h]

theorem next_more (handlers : Handlers σ) (s : RunState σ) (hc : c.toNat < 128)
    (h : Json.loads (s.buffer ++ [c]) = none) :
    s.next handlers (Ascii.byte c) = .ok { s with buffer := s.buffer ++ [c] } := by
  simp [RunState.next, decodeAscii_byte hc, bind, Except.bind, h]

theorem next_request (handlers : Handlers σ) (s : RunState σ) {v : Json} (hc : c.toNat < 128)
    (h : Json.loads (s.buffer ++ [c]) = some (.obj members)) (hcmd : getItem (.obj members) "cmd" = .ok v) :
    s.next handlers (Ascii.byte c) = .ok (final (handle handlers (.obj members)
      { s with buffer := [], decoded := s.decoded ++ [.obj members] })) := by
  simp [RunState.next, decodeAscii_byte hc, bind, Except.bind, h, hcmd]

/-- As long as there is no text in the buffer, bytes are only added to it. -/
theorem foldlM_more (hascii : Ascii.IsAscii t) (h : ∀ p, p <+: t → p ≠ [] → Json.loads (s.buffer ++ p) = none) :
    (t.map Ascii.byte).foldlM (RunState.next handlers) s = .ok { s with buffer := s.buffer ++ t } := by
  induction t using List.reverseRecOn with
  | nil =>
    rw [List.append_nil]
    rfl
  | append_singleton t c ih =>
    obtain ⟨ht, hc⟩ := Ascii.isAscii_append.mp hascii
    have hrun := ih ht fun p hpre => h p (hpre.trans (List.prefix_append t [c]))
    have hread : Json.loads ((s.buffer ++ t) ++ [c]) = none := by
      rw [List.append_assoc]
      exact h (t ++ [c]) (List.prefix_refl _) (by simp)
    have hnext := next_more handlers { s with buffer := s.buffer ++ t } (hc c (.head _)) hread
    rw [List.map_append, Traversal.foldlM_append_ok hrun, List.map_singleton, Traversal.foldlM_cons_ok hnext,
      List.append_assoc]
    rfl

theorem exists_cmd (h : Asks members call) : ∃ v, getItem (.obj members) "cmd" = .ok v := by
  cases h with
  | read hcmd => exact ⟨_, getItem_of_has hcmd⟩
  | write hcmd => exact ⟨_, getItem_of_has hcmd⟩
  | setCpuState hcmd => exact ⟨_, getItem_of_has hcmd⟩
  | getCpuState hcmd => exact ⟨_, getItem_of_has hcmd⟩
  | cont hcmd => exact ⟨_, getItem_of_has hcmd⟩
  | getChecksum hcmd => exact ⟨_, getItem_of_has hcmd⟩

end Received

/-! ### Messages -/

section Messages
variable {σ : Type} {handlers : Handlers σ} {s s' s'' : RunState σ}

/-- What has been done on messages -/
structure Served (handlers : Handlers σ) (messages : List Message) (s s' : RunState σ) : Prop where
  decoded : s'.decoded = s.decoded ++ messages.map (Json.obj ·.members)
  calls : s'.calls.map (·.call) = s.calls.map (·.call) ++ messages.map (·.call)
  handled : s'.handled = handlers.after s.handled (messages.map (·.call))
  sent : ∃ lines, s'.sent = s.sent ++ lines ∧ (handlers.Succeed s.handled (messages.map (·.call)) →
    List.Forall₂ Answers ((messages.map (·.call)).filter (·.reply.isSome)) lines)

theorem Served.nil (s : RunState σ) : Served handlers [] s s :=
  ⟨(List.append_nil _).symm, (List.append_nil _).symm, rfl, [], (List.append_nil _).symm, fun _ => .nil⟩

theorem Served.append {messages messages' : List Message} (h : Served handlers messages s s')
    (h' : Served handlers messages' s' s'') : Served handlers (messages ++ messages') s s'' := by
  obtain ⟨hdecoded, hcalls, hhandled, lines, hsent, hanswers⟩ := h
  obtain ⟨hdecoded', hcalls', hhandled', lines', hsent', hanswers'⟩ := h'
  refine ⟨?_, ?_, ?_, lines ++ lines', ?_, fun hsucceed => ?_⟩
  · rw [hdecoded', hdecoded, List.map_append, List.append_assoc]
  · rw [hcalls', hcalls, List.map_append, List.append_assoc]
  · rw [hhandled', hhandled, List.map_append, Handlers.after, Handlers.after, Handlers.after, List.foldl_append]
  · rw [hsent', hsent, List.append_assoc]
  · rw [List.map_append] at hsucceed
    obtain ⟨hfirst, hrest⟩ := handlers.succeed_append hsucceed
    rw [List.map_append, List.filter_append]
    exact List.rel_append (hanswers hfirst) (hanswers' (hhandled ▸ hrest))

/-- The bytes of one message are one request. The buffer may hold white space that was sent behind the message before. -/
theorem foldlM_message_eq (m : Message) (hbuffer : Json.Space s.buffer) :
    ((m.space ++ m.text).map Ascii.byte).foldlM (RunState.next handlers) s = .ok (final (handle handlers (.obj m.members)
      { s with buffer := [], decoded := s.decoded ++ [.obj m.members] })) := by
  obtain ⟨n, htext⟩ := m.isText
  obtain ⟨v, hcmd⟩ := exists_cmd m.asks
  have hspace : Json.Space (s.buffer ++ m.space) := List.forall_mem_append.mpr ⟨hbuffer, m.blank⟩
  have hne : m.space ++ m.text ≠ [] := by
    obtain ⟨c, t, heq, -⟩ := htext.exists_cons
    simp [heq]
  obtain ⟨t, c, ht⟩ : ∃ t c, m.space ++ m.text = t ++ [c] :=
    ⟨_, _, (List.dropLast_append_getLast hne).symm⟩
  have hascii := m.ascii
  rw [ht] at hascii
  obtain ⟨hasciit, hasciic⟩ := Ascii.isAscii_append.mp hascii
  -- Nothing in front of the last character is a text.
  have hmore : ∀ p, p <+: t → p ≠ [] → Json.loads (s.buffer ++ p) = none := by
    intro p hp _
    have hlong : s.buffer ++ p <+: s.buffer ++ m.space ++ m.text := by
      rw [List.append_assoc, ht]
      exact (List.prefix_append_right_inj _).mpr (hp.trans (List.prefix_append t [c]))
    refine Json.loads_of_prefix hspace htext hlong fun heq => ?_
    rw [List.append_assoc, ht] at heq
    have hlength := hp.length_le
    rw [List.append_cancel_left heq, List.length_append, List.length_singleton] at hlength
    omega
  have hlast : Json.loads (s.buffer ++ t ++ [c]) = some (.obj m.members) := by
    rw [List.append_assoc, ← ht, ← List.append_assoc]
    exact Json.loads_obj hspace htext
  have hnext := next_request handlers { s with buffer := s.buffer ++ t } (hasciic c (.head _)) hlast hcmd
  rw [ht, List.map_append, Traversal.foldlM_append_ok (foldlM_more hasciit hmore), List.map_singleton,
    Traversal.foldlM_cons_ok hnext]
  rfl

theorem foldlM_message (m : Message) (hset : handlers.isSet m.call = true) (hbuffer : Json.Space s.buffer) :
    ∃ s', ((m.space ++ m.text).map Ascii.byte).foldlM (RunState.next handlers) s = .ok s' ∧ s'.buffer = [] ∧
      Served handlers [m] s s' := by
  obtain ⟨returned, lines, heq, hanswers⟩ := served_asks hset m.asks
    { s with buffer := [], decoded := s.decoded ++ [.obj m.members] }
  refine ⟨_, foldlM_message_eq m hbuffer, ?_, ?_⟩
  · rw [heq]
  · rw [heq]
    exact ⟨rfl, List.map_append, rfl, lines, rfl, hanswers⟩

theorem foldlM_messages (messages : List Message) (hset : ∀ m ∈ messages, handlers.isSet m.call = true)
    (hbuffer : s.buffer = []) :
    ∃ s', ((messages.flatMap fun m => m.space ++ m.text).map Ascii.byte).foldlM (RunState.next handlers) s = .ok s' ∧
      s'.buffer = [] ∧ Served handlers messages s s' := by
  induction messages generalizing s with
  | nil => exact ⟨s, rfl, hbuffer, .nil s⟩
  | cons m messages ih =>
    have hblank : Json.Space s.buffer := by simp [hbuffer, Json.Space]
    obtain ⟨s', hrun, hbuffer', hserved⟩ := foldlM_message m (hset m (.head _)) hblank
    obtain ⟨s'', hrun', hbuffer'', hserved'⟩ := ih (fun m hm => hset m (.tail _ hm)) hbuffer'
    refine ⟨s'', ?_, hbuffer'', hserved.append hserved'⟩
    rw [List.flatMap_cons, List.map_append, Traversal.foldlM_append_ok hrun, hrun']

theorem isAscii_of_space {w : List Char} (hw : Json.Space w) : Ascii.IsAscii w := by
  intro c hc
  have h := hw c hc
  simp only [Json.isSpace, Bool.or_eq_true, decide_eq_true_eq] at h
  rcases h with ((rfl | rfl) | rfl) | rfl <;> decide

/-- White space behind the last message stays in the buffer. -/
theorem foldlM_space {w : List Char} (hbuffer : s.buffer = []) (hw : Json.Space w) :
    (w.map Ascii.byte).foldlM (RunState.next handlers) s = .ok { s with buffer := s.buffer ++ w } := by
  refine foldlM_more (isAscii_of_space hw) fun p hp _ => ?_
  rw [hbuffer, List.nil_append]
  exact Json.loads_space fun c hc => hw c (hp.subset hc)

/-- Of a sequence of messages, exactly the objects are decoded, in their order. Each is one call of its handler, with the
    numbers that it asks for, and if the handlers return each gets one line in reply if its kind has one. -/
theorem run_messages (handlers : Handlers σ) (handled : σ) (messages : List Message) (trailing : List Char)
    (hset : ∀ m ∈ messages, handlers.isSet m.call = true) (htrailing : Json.Space trailing) :
    ∃ s', run handlers handled (((messages.flatMap fun m => m.space ++ m.text) ++ trailing).map Ascii.byte) = .ok s' ∧
      s'.decoded = messages.map (Json.obj ·.members) ∧
      s'.calls.map (·.call) = messages.map (·.call) ∧
      s'.handled = handlers.after handled (messages.map (·.call)) ∧
      (handlers.Succeed handled (messages.map (·.call)) →
        List.Forall₂ Answers ((messages.map (·.call)).filter (·.reply.isSome)) s'.sent) := by
  obtain ⟨s', hrun, hbuffer, hdecoded, hcalls, hhandled, lines, hsent, hanswers⟩ :=
    foldlM_messages (s := .init handled) messages hset rfl
  refine ⟨{ s' with buffer := s'.buffer ++ trailing }, ?_, hdecoded, hcalls, hhandled, fun hsucceed => ?_⟩
  · rw [run, List.map_append, Traversal.foldlM_append_ok hrun]
    exact foldlM_space hbuffer htrailing
  · rw [show s'.sent = lines from hsent]
    exact hanswers hsucceed

end Messages

def readMembers : List (Json.Str × Json) :=
  [(Json.units "cmd", str "read"),
    (Json.units "params", .obj [(Json.units "address", str "0x1f"), (Json.units "size", str "4")]),
    (Json.units "cpu_state", .obj [(Json.units "r0", str "\x7d\"")])]

/-- A request with a brace and a quote in one of its strings -/
def readMessage : Message where
  space := []
  text := ("\x7b\"cmd\":\"read\",\"params\":\x7b\"address\":\"0x1f\",\"size\":\"4\"\x7d," ++
    "\"cpu_state\":\x7b\"r0\":\"\x7d\\\"\"\x7d\x7d").toList
  members := readMembers
  call := .read 31 4 (.obj [(Json.units "r0", str "\x7d\"")])
  blank := by decide
  isText := ⟨3, Json.text_of_value rfl⟩
  ascii := by decide
  asks := by
    have hparams : Has readMembers "params" (.obj [(Json.units "address", str "0x1f"), (Json.units "size", str "4")]) :=
      ⟨[_], [_], rfl, by decide⟩
    refine .read ⟨[], [_, _], rfl, by decide⟩ ⟨_, _, hparams, ⟨[], [_], rfl, by decide⟩, "0x1f".toList, rfl, by decide⟩
      ⟨_, _, hparams, ⟨[_], [], rfl, by decide⟩, "4".toList, rfl, by decide⟩ ⟨[_, _], [], rfl, by decide⟩

def continueMessage : Message where
  space := "\n ".toList
  text := "\x7b \"cmd\" :\t\"continue\"\n\x7d".toList
  members := [(Json.units "cmd", str "continue")]
  call := .cont
  blank := by decide
  isText := ⟨2, Json.text_of_value rfl⟩
  ascii := by decide
  asks := .cont ⟨[], [], rfl, by decide⟩

def countingHandlers : Handlers Nat where
  read := some fun _ size _ calls => .ok (size + calls) (calls + 1)
  write := none
  setCpuState := none
  getCpuState := none
  cont := some fun calls => .ok () (calls + 1)
  getChecksum := none

/-- The read and the continuation are counted, and both are answered. -/
theorem run_messages_read_continue :
    ∃ s', run countingHandlers 0 ((([readMessage, continueMessage].flatMap fun m => m.space ++ m.text) ++ ['\n']).map
        Ascii.byte) = .ok s' ∧
      s'.decoded = [readMessage, continueMessage].map (Json.obj ·.members) ∧
      s'.calls.map (·.call) = [readMessage, continueMessage].map (·.call) ∧
      s'.handled = 2 ∧ List.Forall₂ Answers [readMessage.call, continueMessage.call] s'.sent := by
  have hset : ∀ m ∈ [readMessage, continueMessage], countingHandlers.isSet m.call = true := by
    intro m hm
    rcases List.mem_pair.mp hm with rfl | rfl <;> rfl
  obtain ⟨s', hrun, hdecoded, hcalls, hhandled, hanswers⟩ :=
    run_messages countingHandlers 0 [readMessage, continueMessage] ['\n'] hset (by decide)
  exact ⟨s', hrun, hdecoded, hcalls, hhandled, hanswers ⟨_, 1, rfl, rfl, _, 2, rfl, rfl, trivial⟩⟩

end Avatar.S2ERemoteMemoryInterface
