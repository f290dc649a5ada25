import Avatar.Lib.StateExcept
import Avatar.Gdb.GdbServer
import Avatar.Theorems.GdbPackets

/-! Which messages the GDB server answers. The arguments of an opcode are split and converted before anything is done
    with them, and each step of that may raise; what the debuggable returns must fit into the reply. -/

namespace Avatar.GdbServer
open Bytes Traversal GdbPackets StateExcept

variable {σ β : Type}

/-- An action returns and sends one message. -/
def Answers (x : ServerM σ β Unit) (s : GdbServer σ β) : Prop :=
  ∃ s' reply, x s = .ok () s' ∧ s'.sent = s.sent ++ [reply]

/-! ### Rules -/

section Rules
variable {α : Type} {s : GdbServer σ β}

theorem answers_bind_ok {x : ServerM σ β α} {f : α → ServerM σ β Unit} {a : α} {s' : GdbServer σ β}
    (h : x s = .ok a s') (hsent : s'.sent = s.sent) : Answers (x >>= f) s ↔ Answers (f a) s' := by
  rw [Answers, Answers, bind_ok h, hsent]

theorem not_answers_bind_error {x : ServerM σ β α} {f : α → ServerM σ β Unit} {e : PyException}
    {s' : GdbServer σ β} (h : x s = .error e s') : ¬Answers (x >>= f) s := by
  rw [Answers, bind_error h]
  rintro ⟨_, _, h, -⟩
  cases h

theorem raises_ok {x : Except PyException α} {a : α} (h : x = .ok a) :
    (raises x : ServerM σ β α) s = .ok a s := by
  subst h
  rfl

theorem raises_error {x : Except PyException α} {e : PyException} (h : x = .error e) :
    (raises x : ServerM σ β α) s = .error e s := by
  subst h
  rfl

theorem answers_raises {x : Except PyException α} {f : α → ServerM σ β Unit} :
    Answers (raises x >>= f) s ↔ ∃ a, x = .ok a ∧ Answers (f a) s := by
  cases x with
  | ok a =>
    rw [answers_bind_ok (raises_ok rfl) rfl]
    simp only [Except.ok.injEq, exists_eq_left']
  | error e =>
    refine iff_of_false (not_answers_bind_error (raises_error rfl)) ?_
    rintro ⟨_, h, -⟩
    cases h

theorem debuggee_bind {γ : Type} (op : StateM σ α) (f : α → ServerM σ β γ) : (debuggee op >>= f) s =
    f (op s.debuggable).1 { s with debuggable := (op s.debuggable).2 } := rfl

theorem answers_debuggee {op : StateM σ α} {f : α → ServerM σ β Unit} : Answers (debuggee op >>= f) s ↔
    Answers (f (op s.debuggable).1) { s with debuggable := (op s.debuggable).2 } := answers_bind_ok rfl rfl

theorem answers_breakpoint {address : Int} {f : β → ServerM σ β Unit} : Answers (breakpoint address >>= f) s ↔
    ∃ bkpt, s.breakpoints.lookup address = some bkpt ∧ Answers (f bkpt) s := by
  cases hlookup : s.breakpoints.lookup address with
  | some bkpt =>
    have hrun : breakpoint address s = .ok bkpt s := by rw [breakpoint, hlookup]
    rw [answers_bind_ok hrun rfl]
    simp only [Option.some.injEq, exists_eq_left']
  | none =>
    have hrun : breakpoint address s = .error .keyError s := by rw [breakpoint, hlookup]
    refine iff_of_false (not_answers_bind_error hrun) ?_
    rintro ⟨_, h, -⟩
    cases h

/-- A change that sends nothing. -/
theorem answers_modify {g : GdbServer σ β → GdbServer σ β} (hg : (g s).sent = s.sent)
    {f : Unit → ServerM σ β Unit} : Answers (modify g >>= f) s ↔ Answers (f ()) (g s) := answers_bind_ok rfl hg

theorem not_answers_throw {e : PyException} : ¬Answers (throw e) s := by
  rintro ⟨_, _, h, -⟩
  cases h

theorem answers_ite_throw {c : Prop} [Decidable c] {x : ServerM σ β Unit} {e : PyException} :
    Answers (if c then x else throw e) s ↔ c ∧ Answers x s := by
  by_cases h : c
  · rw [if_pos h, and_iff_right h]
  · rw [if_neg h]
    exact iff_of_false not_answers_throw fun hc => h hc.1

/-- An ASCII message is sent. -/
theorem sendMessage_ok {message : List Char} (h : Ascii.IsAscii message) :
    sendMessage message s = .ok () { s with sent := s.sent ++ [message] } := by
  simp only [sendMessage, sendMessage_isAscii h]
  rfl

theorem answers_sendMessage {message : List Char} (h : Ascii.IsAscii message) :
    Answers (sendMessage message) s := ⟨_, message, sendMessage_ok h, rfl⟩

end Rules

theorem isAscii_hexBytes (data : List Byte) : Ascii.IsAscii (hexBytes data) := by
  intro c hc
  obtain ⟨x, -, hx⟩ := List.mem_flatMap.mp hc
  exact isAscii_hex2 x.isLt c hx

/-! ### Conditions -/

/-- An unsigned integer of `size` bytes. -/
def Fits (size : Nat) (value : Int) : Prop := 0 ≤ value ∧ value < 256 ^ size

theorem pack_eq_ok {size : Nat} {value : Int} {data : List Byte} :
    pack size value = .ok data ↔ Fits size value ∧ data = toLE size value.toNat := by
  rw [pack, Fits]
  by_cases h : 0 ≤ value ∧ value < 256 ^ size
  · rw [if_pos h, Except.ok.injEq]
    exact ⟨fun heq => ⟨h, heq.symm⟩, fun heq => heq.2.symm⟩
  · rw [if_neg h]
    constructor
    · intro heq
      cases heq
    · rintro ⟨h', -⟩
      exact absurd h' h

theorem item_eq_ok {α : Type} {l : List α} {i : Nat} {a : α} : item l i = .ok a ↔ l[i]? = some a := by
  rw [item]
  cases l[i]? with
  | none => exact iff_of_false (fun h => by cases h) (fun h => by cases h)
  | some b => rw [Except.ok.injEq, Option.some.injEq]

theorem exists_field_iff {text : List Char} {separator : Char} {i : Nat} :
    (∃ part, field text separator i = .ok part) ↔ i < (text.splitOn separator).length := by
  simp only [field, item_eq_ok]
  rw [← Option.isSome_iff_exists, isSome_getElem?]

theorem hexPairs_toBytes_eq_ok {digits : List Char} {data : List Byte} : hexPairs digits >>= toBytes = .ok data ↔
    ∃ values, hexPairs digits = .ok values ∧ (∀ v ∈ values, 0 ≤ v ∧ v < 256) ∧ values.map (BitVec.ofInt 8) = data := by
  cases hexPairs digits with
  | error e => exact iff_of_false (fun h => by cases h) (fun ⟨_, h, _⟩ => by cases h)
  | ok values =>
    show toBytes values = .ok data ↔ _
    rw [toBytes]
    by_cases h : ∀ v ∈ values, 0 ≤ v ∧ v < 256
    · rw [if_pos h, Except.ok.injEq]
      constructor
      · intro heq
        exact ⟨values, rfl, h, heq⟩
      · rintro ⟨_, heq, -, hdata⟩
        cases heq
        exact hdata
    · rw [if_neg h]
      refine iff_of_false (fun heq => by cases heq) ?_
      rintro ⟨_, heq, h', -⟩
      cases heq
      exact h h'

theorem mapM_debuggee {α γ : Type} (f : α → StateM σ γ) (l : List α) :
    (l.mapM fun a => (debuggee (f a) : ServerM σ β γ)) = debuggee (l.mapM f) := by
  induction l with
  | nil => rfl
  | cons a l ih =>
    rw [List.mapM_cons, List.mapM_cons, ih]
    rfl

theorem forM_debuggee {α : Type} (f : α → StateM σ Unit) (l : List α) :
    (l.forM fun a => (debuggee (f a) : ServerM σ β Unit)) = debuggee (l.forM f) := by
  induction l with
  | nil => rfl
  | cons a l ih =>
    show (debuggee (f a) >>= fun _ => l.forM fun a => debuggee (f a)) = _
    rw [ih]
    rfl

section Opcodes
variable (debuggable : Debuggable σ β) (s : GdbServer σ β) (arguments : List Char)

/-- An address and a decimal size; a value that is read must fit into the size. -/
def Readable : Prop := ∃ address size, intField arguments ',' 0 16 = .ok address ∧
  intField arguments ',' 1 10 = .ok size ∧
  (size ∈ [1, 2, 4] → Fits size.toNat (debuggable.readTypedMemory address size s.debuggable).1)

theorem readMemory_answers_iff : Answers (readMemory debuggable arguments) s ↔ Readable debuggable s arguments := by
  simp only [readMemory, answers_raises, Readable, exists_and_left]
  refine exists_congr fun address => and_congr_right fun _ => exists_congr fun size => and_congr_right fun _ => ?_
  by_cases hsize : size ∈ [1, 2, 4]
  · simp only [if_pos hsize, answers_debuggee, answers_raises, pack_eq_ok]
    constructor
    · rintro ⟨_, ⟨hfits, -⟩, -⟩ _
      exact hfits
    · intro h
      exact ⟨_, ⟨h hsize, rfl⟩, answers_sendMessage (isAscii_hexBytes _)⟩
  · simp only [if_neg hsize, answers_debuggee]
    exact ⟨fun _ h => absurd h hsize, fun _ => answers_sendMessage (isAscii_hexBytes _)⟩

/-- An address, a size, and two digits for each of so many bytes. -/
def Writable : Prop := ∃ address_size address digits values, field arguments ':' 0 = .ok address_size ∧
  intField address_size ',' 0 16 = .ok address ∧ intField address_size ',' 1 16 = .ok (values.length : Int) ∧
  field arguments ':' 1 = .ok digits ∧ hexPairs digits = .ok values ∧ ∀ v ∈ values, 0 ≤ v ∧ v < 256

theorem writeMemory_answers_iff : Answers (writeMemory debuggable arguments) s ↔ Writable arguments := by
  simp only [writeMemory, answers_raises, answers_ite_throw, hexPairs_toBytes_eq_ok, Writable]
  constructor
  · rintro ⟨address_size, hfield, address, haddress, size, hsize, digits, hdigits, data, ⟨values, hvalues, hrange, rfl⟩,
      hlen, -⟩
    rw [List.length_map] at hlen
    exact ⟨address_size, address, digits, values, hfield, haddress, hlen ▸ hsize, hdigits, hvalues, hrange⟩
  · rintro ⟨address_size, address, digits, values, hfield, haddress, hsize, hdigits, hvalues, hrange⟩
    refine ⟨address_size, hfield, address, haddress, _, hsize, digits, hdigits, _, ⟨values, hvalues, hrange, rfl⟩,
      by rw [List.length_map], ?_⟩
    split
    · exact answers_debuggee.mpr (answers_sendMessage (by decide))
    · exact answers_debuggee.mpr (answers_sendMessage (by decide))

/-- The registers hold words. -/
def RegistersReadable : Prop :=
  ∀ v ∈ (registers.mapM debuggable.getRegister s.debuggable).1, Fits 4 v

theorem readRegisters_answers_iff : Answers (readRegisters debuggable) s ↔ RegistersReadable debuggable s := by
  have hfits : (∃ data, (registers.mapM debuggable.getRegister s.debuggable).1.mapM (pack 4) = .ok data) ↔
      RegistersReadable debuggable s := by
    simp only [exists_mapM_ok_iff, pack_eq_ok, RegistersReadable, exists_and_left, exists_eq, and_true]
  rw [readRegisters, RegisterAccess.readRegisters]
  simp only [Debuggable.registerAccess_getRegister, debuggee_returning, raises_registerAccess, sendMessage_registerAccess]
  rw [mapM_debuggee, answers_debuggee, answers_raises, ← hfits]
  exact exists_congr fun data => and_iff_left (answers_sendMessage (isAscii_hexBytes _))

/-- Two digits for each byte of the registers. What does not fill a register must be digits only. -/
def RegistersWritable : Prop :=
  ∃ values, hexPairs arguments = .ok values ∧ ∀ group ∈ groups₄ values, ∀ v ∈ group, 0 ≤ v ∧ v < 256

theorem writeRegisters_answers_iff :
    Answers (writeRegisters debuggable arguments) s ↔ RegistersWritable arguments := by
  have hbytes (group : List Int) : (∃ value, (do
      let data ← toBytes group
      Except.ok (RegisterValue.tuple [ofLE data])) = .ok value) ↔ ∀ v ∈ group, 0 ≤ v ∧ v < 256 := by
    by_cases h : ∀ v ∈ group, 0 ≤ v ∧ v < 256
    · rw [toBytes, if_pos h]
      exact iff_of_true ⟨_, rfl⟩ h
    · rw [toBytes, if_neg h]
      exact iff_of_false (fun ⟨_, heq⟩ => by cases heq) h
  have hset (values : List RegisterValue) : Answers (do
      (registers.zip values).forM fun x => debuggee (debuggable.setRegister (.str x.1) x.2)
      sendMessage "OK".toList) s := by
    have hforM := forM_debuggee (σ := σ) (β := β) (fun (x : String × RegisterValue) =>
      debuggable.setRegister (.str x.1) x.2) (registers.zip values)
    show Answers (((registers.zip values).forM fun x => debuggee (debuggable.setRegister (.str x.1) x.2)) >>= _) s
    rw [hforM]
    exact answers_debuggee.mpr (answers_sendMessage (by decide))
  simp only [writeRegisters, RegisterAccess.writeRegisters, Debuggable.registerAccess_setRegister, debuggee_returning,
    raises_registerAccess, sendMessage_registerAccess, answers_raises, RegistersWritable]
  refine exists_congr fun values => and_congr_right fun _ => ?_
  simp only [hset, and_true, exists_mapM_ok_iff, hbytes]

/-- A register that holds a word. -/
def RegisterReadable : Prop :=
  ∃ regnr, int arguments 16 = .ok regnr ∧ Fits 4 (debuggable.getRegisterFromNr regnr s.debuggable).1

theorem readRegister_answers_iff :
    Answers (readRegister debuggable arguments) s ↔ RegisterReadable debuggable s arguments := by
  simp only [readRegister, RegisterAccess.readRegister, Debuggable.registerAccess_getRegisterFromNr, debuggee_returning,
    raises_registerAccess, sendMessage_registerAccess, answers_raises, answers_debuggee, pack_eq_ok, RegisterReadable]
  refine exists_congr fun regnr => and_congr_right fun _ => ?_
  constructor
  · rintro ⟨_, ⟨hfits, -⟩, -⟩
    exact hfits
  · intro hfits
    exact ⟨_, ⟨hfits, rfl⟩, answers_sendMessage (isAscii_hexBytes _)⟩

/-- A register and a word. -/
def RegisterWritable : Prop := ∃ regnr value, intField arguments '=' 0 16 = .ok regnr ∧
  intField arguments '=' 1 16 = .ok value ∧ Fits 4 value

theorem writeRegister_answers_iff :
    Answers (writeRegister debuggable arguments) s ↔ RegisterWritable arguments := by
  simp only [writeRegister, RegisterAccess.writeRegister, Debuggable.registerAccess_setRegister, debuggee_returning,
    raises_registerAccess, sendMessage_registerAccess, answers_raises, answers_debuggee, pack_eq_ok, RegisterWritable,
    exists_and_left]
  refine exists_congr fun regnr => and_congr_right fun _ => exists_congr fun value => and_congr_right fun _ => ?_
  constructor
  · rintro ⟨_, ⟨hfits, -⟩, -⟩
    exact hfits
  · intro hfits
    exact ⟨_, ⟨hfits, rfl⟩, answers_sendMessage (by decide)⟩

theorem breakpointType_iff (c : Char) : (c.toNat : Int) - '0'.toNat ∈ [0, 1] ↔ c = '0' ∨ c = '1' := by
  have hchar (d : Char) : c = d ↔ c.toNat = d.toNat := by
    constructor
    · rintro rfl
      rfl
    · intro h
      rw [← Char.ofNat_toNat c, h, Char.ofNat_toNat]
  rw [List.mem_pair, hchar, hchar]
  show (c.toNat : Int) - 48 = 0 ∨ (c.toNat : Int) - 48 = 1 ↔ c.toNat = 48 ∨ c.toNat = 49
  omega

/-- A type of breakpoints that is implemented, the address, and a kind. -/
def BreakpointAt (address : Int) : Prop := (arguments.head? = some '0' ∨ arguments.head? = some '1') ∧
  intField arguments ',' 1 16 = .ok address ∧ 2 < (arguments.splitOn ',').length

theorem exists_tipe {arguments : List Char} (h : arguments.head? = some '0' ∨ arguments.head? = some '1') :
    ∃ tipe, arguments[0]? = some tipe ∧ (tipe = '0' ∨ tipe = '1') := by
  rw [List.head?_eq_getElem?] at h
  rcases h with h | h
  · exact ⟨'0', h, .inl rfl⟩
  · exact ⟨'1', h, .inr rfl⟩

theorem removeBreakpoint_answers_iff : Answers (removeBreakpoint debuggable arguments) s ↔
    ∃ address ∈ s.breakpoints, BreakpointAt arguments address := by
  simp only [removeBreakpoint, answers_raises, answers_ite_throw, answers_breakpoint, answers_debuggee,
    breakpointType_iff, item_eq_ok]
  constructor
  · rintro ⟨tipe, htipe, address, haddress, kind, hkind, hvalid, bkpt, hlookup, -⟩
    refine ⟨address, AList.lookup_isSome.mp (by rw [hlookup]; rfl), ?_, haddress, exists_field_iff.mp ⟨kind, hkind⟩⟩
    rw [List.head?_eq_getElem?, htipe, Option.some.injEq, Option.some.injEq]
    exact hvalid
  · rintro ⟨address, hmem, htipe, haddress, hlen⟩
    obtain ⟨tipe, htipe, hvalid⟩ := exists_tipe htipe
    obtain ⟨kind, hkind⟩ := exists_field_iff.mpr hlen
    obtain ⟨bkpt, hlookup⟩ := Option.isSome_iff_exists.mp (AList.lookup_isSome.mpr hmem)
    exact ⟨tipe, htipe, address, haddress, kind, hkind, hvalid, bkpt, hlookup,
      (answers_modify rfl).mpr (answers_sendMessage (by decide))⟩

theorem insertBreakpoint_answers_iff : Answers (insertBreakpoint debuggable arguments) s ↔
    ∃ address, BreakpointAt arguments address := by
  simp only [insertBreakpoint, answers_raises, answers_ite_throw, answers_debuggee, breakpointType_iff, item_eq_ok]
  constructor
  · rintro ⟨tipe, htipe, address, haddress, kind, hkind, hvalid, -⟩
    refine ⟨address, ?_, haddress, exists_field_iff.mp ⟨kind, hkind⟩⟩
    rw [List.head?_eq_getElem?, htipe, Option.some.injEq, Option.some.injEq]
    exact hvalid
  · rintro ⟨address, htipe, haddress, hlen⟩
    obtain ⟨tipe, htipe, hvalid⟩ := exists_tipe htipe
    obtain ⟨kind, hkind⟩ := exists_field_iff.mpr hlen
    exact ⟨tipe, htipe, address, haddress, kind, hkind, hvalid,
      (answers_modify rfl).mpr (answers_sendMessage (by decide))⟩

/-- The messages that the server can do something with: those with an opcode, whose arguments are what the opcode
    takes. Other opcodes than these are answered whatever follows. -/
def Answerable : List Char → Prop
  | [] => False
  | 'm' :: arguments => Readable debuggable s arguments
  | 'M' :: arguments => Writable arguments
  | 'g' :: _ => RegistersReadable debuggable s
  | 'G' :: arguments => RegistersWritable arguments
  | 'p' :: arguments => RegisterReadable debuggable s arguments
  | 'P' :: arguments => RegisterWritable arguments
  | 'z' :: arguments => ∃ address ∈ s.breakpoints, BreakpointAt arguments address
  | 'Z' :: arguments => ∃ address, BreakpointAt arguments address
  | _ => True

/-- `_message_received` returns, and sends one message, or none for `c` and `s`. -/
def Replies (message : List Char) : Prop :=
  ∃ s', messageReceived debuggable message s = .ok () s' ∧
    if message.head? = some 'c' ∨ message.head? = some 's' then s'.sent = s.sent
    else ∃ reply, s'.sent = s.sent ++ [reply]

variable {debuggable s} in
theorem replies_iff_answers {opcode : Char} {arguments : List Char} (hc : opcode ≠ 'c') (hs : opcode ≠ 's') :
    Replies debuggable s (opcode :: arguments) ↔ Answers (messageReceived debuggable (opcode :: arguments)) s := by
  have hreply : ¬((opcode :: arguments).head? = some 'c' ∨ (opcode :: arguments).head? = some 's') := by
    rw [List.head?_cons, Option.some.injEq, Option.some.injEq]
    exact not_or.mpr ⟨hc, hs⟩
  simp only [Replies, if_neg hreply, Answers]
  constructor
  · rintro ⟨s', hrun, reply, hsent⟩
    exact ⟨s', reply, hrun, hsent⟩
  · rintro ⟨s', reply, hrun, hsent⟩
    exact ⟨s', hrun, reply, hsent⟩

/-- Exactly the answerable messages get their reply. -/
theorem replies_iff (m : Payload) : Replies debuggable s m.text ↔ Answerable debuggable s m.text := by
  generalize m.text = message
  fun_cases Answerable debuggable s message with
  | case1 => exact iff_of_false (fun ⟨_, h, _⟩ => by cases h) id
  | case2 => exact (replies_iff_answers (by decide) (by decide)).trans (readMemory_answers_iff ..)
  | case3 => exact (replies_iff_answers (by decide) (by decide)).trans (writeMemory_answers_iff ..)
  | case4 => exact (replies_iff_answers (by decide) (by decide)).trans (readRegisters_answers_iff ..)
  | case5 => exact (replies_iff_answers (by decide) (by decide)).trans (writeRegisters_answers_iff ..)
  | case6 => exact (replies_iff_answers (by decide) (by decide)).trans (readRegister_answers_iff ..)
  | case7 => exact (replies_iff_answers (by decide) (by decide)).trans (writeRegister_answers_iff ..)
  | case8 => exact (replies_iff_answers (by decide) (by decide)).trans (removeBreakpoint_answers_iff ..)
  | case9 => exact (replies_iff_answers (by decide) (by decide)).trans (insertBreakpoint_answers_iff ..)
  | case10 message hnil hm hM hg hG hp hP hz hZ =>
    refine iff_true_intro ?_
    obtain ⟨opcode, arguments, rfl⟩ := List.exists_cons_of_ne_nil hnil
    by_cases hc : opcode = 'c'
    · subst hc
      exact ⟨_, rfl, rfl⟩
    by_cases hs : opcode = 's'
    · subst hs
      exact ⟨_, rfl, rfl⟩
    rw [replies_iff_answers hc hs]
    -- The opcodes with arguments of their own have been dealt with above.
    have hne {c : Char} (h : ∀ rest, opcode :: arguments = c :: rest → False) : opcode ≠ c := by
      rintro rfl
      exact h arguments rfl
    have hother (h : opcode ≠ '?') : messageReceived debuggable (opcode :: arguments) = sendMessage [] := by
      rw [messageReceived]
      exacts [hne hm, hne hM, hne hg, hne hG, hne hp, hne hP, hc, hne hz, hne hZ, h, hs]
    by_cases h : opcode = '?'
    · subst h
      exact answers_sendMessage (by decide)
    · rw [hother h]
      exact answers_sendMessage (by decide)

end Opcodes

/-- A debuggable that does nothing, as the null target -/
def nullDebuggable : Debuggable Unit Unit where
  readTypedMemory _ _ := pure 0
  readUntypedMemory _ _ := pure []
  writeTypedMemory _ _ _ := pure ()
  writeUntypedMemory _ _ := pure ()
  getRegister _ := pure 0
  getRegisterFromNr _ := pure 0
  setRegister _ _ := pure ()
  setBreakpoint _ := pure ()
  delete _ := pure ()
  cont := pure ()
  stepi := pure ()

/-- The message of the packet `$#00` has no opcode. -/
theorem not_replies_nil : ¬Replies nullDebuggable ⟨(), ∅, []⟩ [] := by
  rintro ⟨_, h, -⟩
  cases h

end Avatar.GdbServer
