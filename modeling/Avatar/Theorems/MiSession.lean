import Avatar.Lib.Transition
import Avatar.Theorems.MiReader
import Avatar.Theorems.MiRoundTrip

/-! # A session with gdb

The thread that calls `sync_cmd`, the process, and the thread that reads what the process writes are joined by two pipes and
by the queue of the results. Whatever the order of their steps, every command comes to what it would come to if it were
answered before anything else happened. At most one result is on its way, and only while `sync_cmd` waits for it. -/

namespace Avatar

/-- What `sync_cmd` returns or raises -/
abbrev MiOutcome := Except MiError (Option MiValue)

namespace MiSession
open Bytes

/-- A gdb. Its answer to a command is well-formed and ASCII, and neither has an empty tuple nor ends with an empty list. -/
structure Process (π : Type) where
  answer : π → List Char → π × ResultClass × List (List Char × MiTerm)
  readable : ∀ p cmd, MiTerm.ReadableResults (answer p cmd).2.2
  closed : ∀ p cmd, MiTerm.endsOpen (answer p cmd).2.2 = false
  ascii : ∀ p cmd, Ascii.IsAscii (MiTerm.printResults (answer p cmd).2.2)

/-- The thread that calls `sync_cmd`: its next command, after what the commands before it have come to. A command is one
    line, and does not begin with a digit, which would be taken for one of the token. -/
structure Client where
  next : List MiOutcome → Option (List (List Char) × ResultClass)
  plain : ∀ outcomes cmd klass, next outcomes = some (cmd, klass) → ∀ c ∈ ([' '].intercalate cmd).head?, c.isDigit = false
  line : ∀ outcomes cmd klass, next outcomes = some (cmd, klass) → '\n' ∉ [' '].intercalate cmd

/-- What gdb writes of its own accord -/
inductive Notice where
  | prompt
  | async (type : AsyncType) (klass : List Char) (results : List (List Char × MiTerm))
      (readable : (MiRecord.async type klass results).Readable) (closed : MiTerm.endsOpen results = false)
  | stream (type : StreamType) (string : List Char)

def Notice.print : Notice → List Char
  | prompt => Mi.terminator
  | async type klass results _ _ => (MiRecord.async type klass results).print
  | stream type string => (MiRecord.stream type string).print

structure State (π σ : Type) where
  token : Nat
  /-- The token and the class that `sync_cmd` waits for -/
  waiting : Option (Nat × ResultClass)
  outcomes : List MiOutcome
  /-- What the process has not read -/
  input : List Char
  process : π
  /-- The bytes that the thread has not read -/
  output : List Byte
  /-- The `buffer` of the thread, if it has not ended -/
  reader : Option (List Char)
  mi : Mi σ

/-- The token of the first command is 1. -/
def init {π σ : Type} (p : π) (d : σ) : State π σ := ⟨1, none, [], [], p, [], some [], ⟨d, []⟩⟩

/-- A line is written to the output. -/
def State.write {π σ : Type} (line : List Char) (s : State π σ) : State π σ :=
  { s with output := s.output ++ (line ++ ['\n']).map Ascii.byte }

inductive Action where
  | send
  | answer
  | emit (notice : Notice)
  | read (bytes : List Byte)
  | take

variable {π σ : Type} (client : Client) (process : Process π) (dbg : Debugger σ)

/-- One round of the thread -/
def State.received (buffer : List Char) (bytes rest : List Byte) (s : State π σ) : State π σ :=
  match Mi.run dbg buffer [bytes] s.mi with
  | .ok reader mi => { s with output := rest, reader := reader, mi := mi }
  | .error _ mi => { s with output := rest, reader := none, mi := mi }

inductive Step (s : State π σ) : Action → State π σ → Prop where
  | send {cmd : List (List Char)} {klass : ResultClass} (hwaiting : s.waiting = none)
      (hnext : client.next s.outcomes = some (cmd, klass)) :
      Step s .send { s with
        token := s.token + 1, waiting := some (s.token, klass),
        input := s.input ++ (Mi.commandLine s.token cmd ++ ['\n']) }
  /-- The digits at the beginning of a line are its token, which the answer repeats. -/
  | answer {line rest : List Char} {p : π} {klass : ResultClass} {results : List (List Char × MiTerm)}
      (hinput : s.input = line ++ '\n' :: rest) (hline : '\n' ∉ line)
      (hanswer : process.answer s.process (line.dropWhile Char.isDigit) = (p, klass, results)) :
      Step s .answer ({ s with input := rest, process := p }.write
        (line.takeWhile Char.isDigit ++ '^' :: (klass.word ++ MiTerm.printResults results)))
  | emit (notice : Notice) (hascii : Ascii.IsAscii notice.print) : Step s (.emit notice) (s.write notice.print)
  | read {buffer : List Char} {bytes rest : List Byte} (hreader : s.reader = some buffer)
      (houtput : s.output = bytes ++ rest) (hne : bytes ≠ []) (hlength : bytes.length ≤ 1024) :
      Step s (.read bytes) (s.received dbg buffer bytes rest)
  | take {t : Nat} {klass : ResultClass} {msg : MiResult} {queue : List MiResult}
      (hwaiting : s.waiting = some (t, klass)) (hqueue : s.mi.results_queue = msg :: queue) :
      Step s .take { s with
        waiting := none, outcomes := s.outcomes ++ [Mi.accept t klass msg], mi := { s.mi with results_queue := queue } }

/-- A read ends behind a prompt, in front of the end of its line. -/
def BehindPrompt (s : State π σ) : Action → Prop
  | .read bytes => ∃ buffer text, s.reader = some buffer ∧ Ascii.decode bytes = some text ∧
      Lines.unfinished '\n' buffer text = Mi.terminator
  | _ => False

/-- A step that is no read behind a prompt. Such a read is the end of the thread. -/
def WholeStep (s : State π σ) (a : Action) (t : State π σ) : Prop := Step client process dbg s a t ∧ ¬ BehindPrompt s a

/-! ### The same without threads -/

/-- The outcome of a command that expects the class -/
def judge (klass : ResultClass) (reply : ResultClass × List (List Char × MiTerm)) : MiOutcome :=
  if reply.1 ≠ klass then .error .miProtocolException else .ok (MiRecord.resultsValue reply.2)

/-- The process and the outcomes after a number of commands, each of which is answered before the next one is sent -/
def sequential (p : π) : Nat → π × List MiOutcome
  | 0 => (p, [])
  | n + 1 =>
    let s := sequential p n
    match client.next s.2 with
    | none => s
    | some (cmd, klass) =>
      let reply := process.answer s.1 ([' '].intercalate cmd)
      (reply.1, s.2 ++ [judge klass reply.2])

/-! ### What the reading thread does with a line -/

/-- What the debugger does with a notice -/
def Notice.handled : Notice → EStateM MiError σ Unit
  | .prompt => pure ()
  | .async type klass results _ _ => dbg.handleAsync ⟨type, klass, MiRecord.resultsValue results⟩
  | .stream type string => dbg.handleStreamMsg ⟨type, string⟩

/-- The debugger returns, whatever its state. -/
def Accepts (n : Notice) : Prop := ∀ d, ∃ d', n.handled dbg d = .ok () d'

/-- The state of the debugger after a notice -/
def handle (d : σ) (n : Notice) : σ := StateExcept.final (n.handled dbg d)

/-- A line of the output -/
inductive Item where
  | notice (n : Notice)
  | reply (t : Nat) (klass : ResultClass) (results : List (List Char × MiTerm))
      (readable : MiTerm.ReadableResults results) (closed : MiTerm.endsOpen results = false)

namespace Item

def print : Item → List Char
  | notice n => n.print
  | reply t klass results _ _ => (MiRecord.result t klass results).print

def notice? : Item → Option Notice
  | notice n => some n
  | reply .. => none

def reply? : Item → Option MiResult
  | notice _ => none
  | reply t klass results _ _ => some ⟨t, klass, MiRecord.resultsValue results⟩

end Item

theorem Item.newline_notMem_print : ∀ item : Item, '\n' ∉ item.print
  | .notice .prompt => by decide
  | .notice (.async type klass results readable _) => by
    have hmark : '\n' ≠ type.mark := by cases type <;> decide
    have hresults := MiParser.newline_notMem_printResults results readable.2.2.2
    simp [Item.print, Notice.print, MiRecord.print, hmark, readable.2.2.1, hresults]
  | .notice (.stream type string) => by
    have hmark : '\n' ≠ type.mark := by cases type <;> decide
    simp [Item.print, Notice.print, MiRecord.print, hmark, MiParser.newline_notMem_printChars]
  | .reply t klass results readable _ => by
    have htoken : '\n' ∉ Numeral.dec t := fun h => absurd (MiParser.isDigit_dec h) (by decide)
    have hword : '\n' ∉ klass.word := by cases klass <;> decide
    have hresults := MiParser.newline_notMem_printResults results readable
    simp [Item.print, MiRecord.print, htoken, hword, hresults]

/-- No line is a result without a token. -/
theorem Item.print_ne_bareDone : ∀ item : Item, item.print ≠ Mi.bareDone
  | .notice .prompt => by decide
  | .notice (.async type klass results _ _) => fun h => by
    have hmark := (List.cons.inj h).1
    cases type <;> cases hmark
  | .notice (.stream type string) => fun h => by
    have hmark := (List.cons.inj h).1
    cases type <;> cases hmark
  | .reply t klass results _ _ => fun h => by
    obtain ⟨digit, digits, htoken⟩ := List.exists_cons_of_ne_nil (show Numeral.dec t ≠ [] from Nat.toDigits_ne_nil)
    rw [Item.print, MiRecord.print, htoken] at h
    have hdigit : digit.isDigit = true := MiParser.isDigit_dec (htoken ▸ List.mem_cons_self)
    rw [(List.cons.inj h).1] at hdigit
    cases hdigit

section Deliver
variable {dbg}

theorem deliverLine_of_parse {line : List Char} {msg : MiMessage} {mi mi' : Mi σ}
    (hparse : MiParser.parse line = .ok msg) (hdispatch : Mi.dispatch dbg msg mi = .ok () mi') :
    Mi.deliverLine dbg line mi = .ok () mi' := by
  have hne : line ≠ Mi.terminator := by
    rintro rfl
    cases hparse
  rw [Mi.deliverLine, if_neg hne]
  refine StateExcept.tryCatch_ok ?_
  rw [Mi.addMsg, StateExcept.bind_ok (StateExcept.lift_ok hparse mi)]
  exact hdispatch

theorem parse_closed {r : MiRecord} (readable : r.Readable) (closed : r.endsOpen = false) :
    MiParser.parse r.print = .ok r.message := by
  rw [MiParser.parse_print r readable, closed]
  rfl

theorem final_of_ok {x : EStateM MiError σ Unit} {d : σ} (h : ∃ d', x d = .ok () d') :
    x d = .ok () (StateExcept.final (x d)) := by
  obtain ⟨d', hx⟩ := h
  rw [hx]
  rfl

theorem onDebugger_ok {x : EStateM MiError σ Unit} {mi : Mi σ} {d : σ} (h : x mi.dbg = .ok () d) :
    Mi.onDebugger x mi = .ok () { mi with dbg := d } := by
  rw [Mi.onDebugger, h]

theorem deliverLine_notice {n : Notice} (hn : Accepts dbg n) (mi : Mi σ) :
    Mi.deliverLine dbg n.print mi = .ok () { mi with dbg := handle dbg mi.dbg n } := by
  have hrun := final_of_ok (hn mi.dbg)
  cases n with
  | prompt =>
    rw [Notice.print, Mi.deliverLine, if_pos rfl]
    rfl
  | async type klass results readable closed =>
    exact deliverLine_of_parse (parse_closed readable closed) (onDebugger_ok hrun)
  | stream type string =>
    exact deliverLine_of_parse (parse_closed (r := .stream type string) trivial rfl) (onDebugger_ok hrun)

theorem deliverLine_reply (t : Nat) (klass : ResultClass) {results : List (List Char × MiTerm)}
    (readable : MiTerm.ReadableResults results) (closed : MiTerm.endsOpen results = false) (mi : Mi σ) :
    Mi.deliverLine dbg (MiRecord.result t klass results).print mi =
      .ok () { mi with results_queue := mi.results_queue ++ [⟨t, klass, MiRecord.resultsValue results⟩] } :=
  deliverLine_of_parse (parse_closed (r := .result t klass results) readable closed) rfl

/-- What the thread does with several lines -/
theorem deliver_items {items : List Item} (h : ∀ item ∈ items, ∀ n, item = .notice n → Accepts dbg n) (mi : Mi σ) :
    Mi.deliver dbg (items.map Item.print) mi =
      .ok () ⟨(items.filterMap Item.notice?).foldl (handle dbg) mi.dbg, mi.results_queue ++ items.filterMap Item.reply?⟩ := by
  induction items generalizing mi with
  | nil =>
    rw [List.filterMap_nil, List.filterMap_nil, List.append_nil]
    rfl
  | cons item items ih =>
    have hitems := ih fun item hitem => h item (.tail _ hitem)
    show (Mi.deliverLine dbg item.print >>= fun _ => Mi.deliver dbg (items.map Item.print)) mi = _
    cases item with
    | notice n =>
      rw [Item.print, StateExcept.bind_ok (deliverLine_notice (h _ (.head _) n rfl) mi), hitems]
      rfl
    | reply t klass results readable closed =>
      rw [Item.print, StateExcept.bind_ok (deliverLine_reply t klass readable closed mi), hitems]
      show EStateM.Result.ok () (Mi.mk _ (mi.results_queue ++ [_] ++ _)) = _
      rw [List.append_assoc]
      rfl

end Deliver

/-! ### The bytes between gdb and the thread -/

/-- What has been read of a line and what has not been read are the lines, and end with them. -/
structure Pending (s : State π σ) (lines : List (List Char)) (buffer text : List Char) : Prop where
  reader : s.reader = some buffer
  output : s.output = text.map Ascii.byte
  ascii : Ascii.IsAscii text
  newline : '\n' ∉ buffer
  prompt : buffer ≠ Mi.terminator
  complete : Lines.complete '\n' buffer text = lines
  unfinished : Lines.unfinished '\n' buffer text = []

section Pending
variable {s t : State π σ} {lines : List (List Char)} {buffer text line : List Char} {bytes rest : List Byte}

theorem Pending.congr (h : Pending s lines buffer text) (hreader : t.reader = s.reader) (houtput : t.output = s.output) :
    Pending t lines buffer text :=
  ⟨hreader.trans h.reader, houtput.trans h.output, h.ascii, h.newline, h.prompt, h.complete, h.unfinished⟩

theorem Pending.write (h : Pending s lines buffer text) (hline : '\n' ∉ line) (hascii : Ascii.IsAscii line) :
    Pending (s.write line) (lines ++ [line]) buffer (text ++ (line ++ ['\n'])) := by
  refine ⟨h.reader, ?_, ?_, h.newline, h.prompt, ?_, ?_⟩
  · show s.output ++ _ = _
    rw [h.output, ← List.map_append]
  · rw [Ascii.isAscii_append, Ascii.isAscii_append]
    exact ⟨h.ascii, hascii, by decide⟩
  · rw [Lines.complete_append, h.complete, h.unfinished, Lines.complete_line hline]
  · rw [Lines.unfinished_append, h.unfinished, Lines.unfinished_line hline]

/-- At the end of the output there are no more lines. -/
theorem Pending.lines_eq_nil (h : Pending s lines buffer text) (hempty : s.output = []) : lines = [] := by
  have htext : text = [] := List.map_eq_nil_iff.mp (h.output.symm.trans hempty)
  rw [← h.complete, htext]
  rfl

/-- The text of a read -/
theorem Pending.split (h : Pending s lines buffer text) (houtput : s.output = bytes ++ rest) :
    ∃ before after, text = before ++ after ∧ bytes = before.map Ascii.byte ∧ rest = after.map Ascii.byte ∧
      Ascii.decode bytes = some before := by
  obtain ⟨before, after, rfl, hbytes, hrest⟩ := List.map_eq_append_iff.mp (h.output.symm.trans houtput)
  refine ⟨before, after, rfl, hbytes.symm, hrest.symm, ?_⟩
  rw [← hbytes]
  exact Ascii.decode_map_byte (Ascii.isAscii_append.mp h.ascii).1

/-- One or two characters that do not end behind a prompt -/
theorem exists_piece (hne : text ≠ []) (hend : Lines.unfinished '\n' buffer text = []) :
    ∃ before after, text = before ++ after ∧ before ≠ [] ∧ before.length ≤ 2 ∧
      Lines.unfinished '\n' buffer before ≠ Mi.terminator := by
  obtain ⟨c, text, rfl⟩ := List.exists_cons_of_ne_nil hne
  by_cases hprompt : Lines.unfinished '\n' buffer [c] = Mi.terminator
  · cases text with
    | nil => cases hprompt.symm.trans hend
    | cons d text =>
      refine ⟨[c, d], text, rfl, List.cons_ne_nil _ _, Nat.le_refl 2, ?_⟩
      rw [show [c, d] = [c] ++ [d] from rfl, Lines.unfinished_append, hprompt, Lines.unfinished]
      split
      · decide
      · intro h
        cases congrArg List.length h
  · exact ⟨[c], text, rfl, List.cons_ne_nil _ _, Nat.le_succ 1, hprompt⟩

end Pending

/-! ### The invariant -/

/-- The notices that gdb has written -/
def emitted : List Action → List Notice := List.filterMap fun
  | .emit n => some n
  | _ => none

/-- Where the last command is. The list holds the results on their way to the thread that waits. -/
inductive Phase (s : State π σ) (seq : π) : List MiResult → Prop where
  | idle (hwaiting : s.waiting = none) (hinput : s.input = []) (hprocess : s.process = seq) : Phase s seq []
  | sent {t : Nat} {cmd : List (List Char)} {klass : ResultClass} (hwaiting : s.waiting = some (t, klass))
      (hnext : client.next s.outcomes = some (cmd, klass)) (hinput : s.input = Mi.commandLine t cmd ++ ['\n'])
      (hprocess : s.process = seq) : Phase s seq []
  | answered {t : Nat} {cmd : List (List Char)} {klass k : ResultClass} {results : List (List Char × MiTerm)}
      (hwaiting : s.waiting = some (t, klass)) (hnext : client.next s.outcomes = some (cmd, klass)) (hinput : s.input = [])
      (hanswer : process.answer seq ([' '].intercalate cmd) = (s.process, k, results)) :
      Phase s seq [⟨t, k, MiRecord.resultsValue results⟩]

/-- The lines that the thread has not handled, and the notices that it has -/
structure Inv (p : π) (d : σ) (as : List Action) (items : List Item) (handled : List Notice) (s : State π σ) : Prop where
  pending : ∃ buffer text, Pending s (items.map Item.print) buffer text
  notices : emitted as = handled ++ items.filterMap Item.notice?
  accepted : ∀ item ∈ items, ∀ n, item = .notice n → Accepts dbg n
  debugger : s.mi.dbg = handled.foldl (handle dbg) d
  outcomes : s.outcomes = (sequential client process p s.outcomes.length).2
  phase : Phase client process s (sequential client process p s.outcomes.length).1
    (s.mi.results_queue ++ items.filterMap Item.reply?)

section Steps
variable {client process dbg} {p seq : π} {d : σ} {as : List Action} {s t : State π σ} {items : List Item}
  {handled : List Notice} {replies : List MiResult}

theorem commandLine_parts (token : Nat) {text : List Char} (h : ∀ c ∈ text.head?, c.isDigit = false) :
    (Numeral.dec token ++ text).takeWhile Char.isDigit = Numeral.dec token ∧
      (Numeral.dec token ++ text).dropWhile Char.isDigit = text :=
  MiParser.takeWhile_append_stop (fun _ hc => MiParser.isDigit_dec hc) h

theorem newline_notMem_dec (token : Nat) : '\n' ∉ Numeral.dec token :=
  fun h => absurd (MiParser.isDigit_dec h) (by decide)

theorem newline_notMem_commandLine (token : Nat) {cmd : List (List Char)} (h : '\n' ∉ [' '].intercalate cmd) :
    '\n' ∉ Mi.commandLine token cmd := by
  rw [Mi.commandLine, List.mem_append]
  exact not_or.mpr ⟨newline_notMem_dec token, h⟩

theorem isAscii_print_result (token : Nat) (klass : ResultClass) {results : List (List Char × MiTerm)}
    (h : Ascii.IsAscii (MiTerm.printResults results)) : Ascii.IsAscii (MiRecord.result token klass results).print := by
  have htoken : Ascii.IsAscii (Numeral.dec token) := fun c hc =>
    Nat.lt_of_le_of_lt (Char.isDigit_iff_toNat.mp (MiParser.isDigit_dec hc)).2 (by decide)
  have hword : Ascii.IsAscii ('^' :: klass.word) := by cases klass <;> decide
  rw [MiRecord.print, ← List.cons_append, Ascii.isAscii_append, Ascii.isAscii_append]
  exact ⟨htoken, hword, h⟩

theorem emitted_snoc (as : List Action) (a : Action) : emitted (as ++ [a]) = emitted as ++ emitted [a] :=
  List.filterMap_append

/-- A step that concerns neither `sync_cmd` nor the process -/
theorem Phase.congr (h : Phase client process s seq replies) (hwaiting : t.waiting = s.waiting)
    (houtcomes : t.outcomes = s.outcomes) (hinput : t.input = s.input) (hprocess : t.process = s.process) :
    Phase client process t seq replies := by
  cases h with
  | idle hw hi hp => exact .idle (hwaiting.trans hw) (hinput.trans hi) (hprocess.trans hp)
  | sent hw hn hi hp => exact .sent (hwaiting.trans hw) (houtcomes ▸ hn) (hinput.trans hi) (hprocess.trans hp)
  | answered hw hn hi ha => exact .answered (hwaiting.trans hw) (houtcomes ▸ hn) (hinput.trans hi) (hprocess ▸ ha)

theorem Phase.send (h : Phase client process s seq replies) (hwaiting : s.waiting = none) :
    replies = [] ∧ s.input = [] ∧ s.process = seq := by
  cases h with
  | idle _ hinput hprocess => exact ⟨rfl, hinput, hprocess⟩
  | sent hwaiting' => cases hwaiting.symm.trans hwaiting'
  | answered hwaiting' => cases hwaiting.symm.trans hwaiting'

theorem Inv.send (I : Inv client process dbg p d as items handled s) (h : Step client process dbg s .send t) :
    Inv client process dbg p d (as ++ [.send]) items handled t := by
  cases h with
  | send hwaiting hnext =>
    obtain ⟨hreplies, hinput, hprocess⟩ := I.phase.send hwaiting
    obtain ⟨buffer, text, hpending⟩ := I.pending
    refine ⟨⟨buffer, text, hpending.congr rfl rfl⟩, ?_, I.accepted, I.debugger, I.outcomes, ?_⟩
    · rw [emitted_snoc, I.notices]
      exact List.append_nil _
    · show Phase client process _ _ (s.mi.results_queue ++ items.filterMap Item.reply?)
      rw [hreplies]
      exact .sent rfl hnext (by rw [hinput]; rfl) hprocess

theorem Inv.answer (I : Inv client process dbg p d as items handled s) (h : Step client process dbg s .answer t) :
    ∃ item, Inv client process dbg p d (as ++ [.answer]) (items ++ [item]) handled t := by
  have hphase := I.phase
  generalize hreplies : s.mi.results_queue ++ items.filterMap Item.reply? = replies at hphase
  cases h with
  | @answer line rest p' k results hinput hline hanswer =>
    have hne : s.input ≠ [] := by simp [hinput]
    cases hphase with
    | idle _ hinput' => exact absurd hinput' hne
    | answered _ _ hinput' => exact absurd hinput' hne
    | @sent token cmd klass hwaiting hnext hinput' hprocess =>
      have hcommand := newline_notMem_commandLine token (client.line _ _ _ hnext)
      obtain ⟨rfl, -, rfl⟩ :=
        (List.append_cons_inj_of_notMem hcommand List.not_mem_nil).mp (hinput'.symm.trans hinput)
      obtain ⟨htake, hdrop⟩ := commandLine_parts token (client.plain _ _ _ hnext)
      rw [Mi.commandLine, hdrop, hprocess] at hanswer
      have hreadable := process.readable (sequential client process p s.outcomes.length).1 ([' '].intercalate cmd)
      have hclosed := process.closed (sequential client process p s.outcomes.length).1 ([' '].intercalate cmd)
      have hascii := process.ascii (sequential client process p s.outcomes.length).1 ([' '].intercalate cmd)
      rw [hanswer] at hreadable hclosed hascii
      obtain ⟨buffer, text, hpending⟩ := I.pending
      have hwrite := hpending.write (Item.newline_notMem_print (.reply token k results hreadable hclosed))
        (isAscii_print_result token k hascii)
      rw [Mi.commandLine, htake]
      rw [← List.map_singleton, ← List.map_append] at hwrite
      refine ⟨.reply token k results hreadable hclosed, ⟨buffer, _, hwrite.congr rfl rfl⟩, ?_, ?_, I.debugger, I.outcomes,
        ?_⟩
      · rw [emitted_snoc, I.notices, List.filterMap_append]
        exact List.append_assoc _ _ _
      · intro item hitem n hn
        rcases List.mem_append.mp hitem with hitem | hitem
        · exact I.accepted item hitem n hn
        · cases (List.mem_singleton.mp hitem).symm.trans hn
      · show Phase client process _ _ (s.mi.results_queue ++ (items ++ [_]).filterMap Item.reply?)
        rw [List.filterMap_append, ← List.append_assoc, hreplies]
        exact .answered hwaiting hnext rfl hanswer

theorem Inv.emit {n : Notice} (hn : Accepts dbg n) (I : Inv client process dbg p d as items handled s)
    (h : Step client process dbg s (.emit n) t) :
    Inv client process dbg p d (as ++ [.emit n]) (items ++ [.notice n]) handled t := by
  cases h with
  | emit _ hascii =>
    obtain ⟨buffer, text, hpending⟩ := I.pending
    have hwrite := hpending.write (Item.newline_notMem_print (.notice n)) hascii
    rw [← List.map_singleton, ← List.map_append] at hwrite
    refine ⟨⟨buffer, _, hwrite⟩, ?_, ?_, I.debugger, I.outcomes, ?_⟩
    · rw [emitted_snoc, I.notices, List.filterMap_append, List.append_assoc]
      rfl
    · intro item hitem m hm
      rcases List.mem_append.mp hitem with hitem | hitem
      · exact I.accepted item hitem m hm
      · cases (List.mem_singleton.mp hitem).symm.trans hm
        exact hn
    · show Phase client process _ _ (s.mi.results_queue ++ (items ++ [Item.notice n]).filterMap Item.reply?)
      rw [List.filterMap_append, ← List.append_assoc]
      show Phase client process _ _ (s.mi.results_queue ++ items.filterMap Item.reply? ++ [])
      rw [List.append_nil]
      exact I.phase.congr rfl rfl rfl rfl

/-- Nothing but the output, the thread and what it works on is different. -/
theorem received_eq (dbg : Debugger σ) (buffer : List Char) (bytes rest : List Byte) (s : State π σ) :
    ∃ reader mi, s.received dbg buffer bytes rest = { s with output := rest, reader := reader, mi := mi } := by
  rw [State.received]
  cases Mi.run dbg buffer [bytes] s.mi with
  | ok reader mi => exact ⟨reader, mi, rfl⟩
  | error e mi => exact ⟨none, mi, rfl⟩

/-- What has been read ends some of the lines, which are handled, and the others are still to come. -/
theorem Inv.read (I : Inv client process dbg p d as items handled s) {bytes : List Byte}
    (hwhole : ¬ BehindPrompt s (.read bytes)) (h : Step client process dbg s (.read bytes) t) :
    ∃ items' handled', Inv client process dbg p d (as ++ [.read bytes]) items' handled' t := by
  have hemitted : emitted (as ++ [.read bytes]) = emitted as := by
    rw [emitted_snoc]
    exact List.append_nil _
  obtain ⟨buffer, text, hpending⟩ := I.pending
  cases h with
  | @read buffer' _ rest hreader houtput hne =>
    obtain rfl : buffer' = buffer := Option.some.inj (hreader.symm.trans hpending.reader)
    obtain ⟨before, after, rfl, rfl, rfl, hdecode⟩ := hpending.split houtput
    have hprompt : Lines.unfinished '\n' buffer' before ≠ Mi.terminator :=
      fun h => hwhole ⟨buffer', before, hreader, hdecode, h⟩
    have hlines := hpending.complete
    rw [Lines.complete_append] at hlines
    obtain ⟨done, todo, rfl, hdone, htodo⟩ := List.map_eq_append_iff.mp hlines.symm
    have hbare : Mi.bareDone ∉ Lines.complete '\n' buffer' before := by
      rw [← hdone, List.mem_map]
      rintro ⟨item, -, hitem⟩
      exact item.print_ne_bareDone hitem
    have hdeliver := deliver_items (fun item hitem => I.accepted item (List.mem_append_left _ hitem)) s.mi
    rw [hdone] at hdeliver
    have hrun := Mi.run_read_ok hdecode (mt List.map_eq_nil_iff.mpr hne) hpending.newline hbare hdeliver
    rw [Mi.keep, if_neg hprompt] at hrun
    rw [State.received, hrun]
    have hunfinished := hpending.unfinished
    rw [Lines.unfinished_append] at hunfinished
    refine ⟨todo, handled ++ done.filterMap Item.notice?, ⟨Lines.unfinished '\n' buffer' before, after, rfl, rfl,
      (Ascii.isAscii_append.mp hpending.ascii).2, Lines.sep_notMem_unfinished hpending.newline before, hprompt,
      htodo.symm, hunfinished⟩, ?_, fun item hitem => I.accepted item (List.mem_append_right _ hitem), ?_, I.outcomes, ?_⟩
    · rw [hemitted, I.notices, List.filterMap_append, List.append_assoc]
    · show (done.filterMap Item.notice?).foldl (handle dbg) s.mi.dbg = _
      rw [I.debugger, List.foldl_append]
    · have hphase := I.phase
      rw [List.filterMap_append, ← List.append_assoc] at hphase
      exact hphase.congr rfl rfl rfl rfl

/-- The outcome is the one of the command, as it would be without threads. -/
theorem accept_eq_judge (t : Nat) (klass k : ResultClass) (results : List (List Char × MiTerm)) :
    Mi.accept t klass ⟨t, k, MiRecord.resultsValue results⟩ = judge klass (k, results) := by
  rw [Mi.accept, if_neg (not_not.mpr rfl)]
  rfl

theorem sequential_succ {n : Nat} {cmd : List (List Char)} {klass : ResultClass}
    (hnext : client.next (sequential client process p n).2 = some (cmd, klass)) :
    sequential client process p (n + 1) =
      ((process.answer (sequential client process p n).1 ([' '].intercalate cmd)).1,
        (sequential client process p n).2 ++
          [judge klass (process.answer (sequential client process p n).1 ([' '].intercalate cmd)).2]) := by
  rw [sequential, hnext]

theorem Inv.take (I : Inv client process dbg p d as items handled s) (h : Step client process dbg s .take t) :
    Inv client process dbg p d (as ++ [.take]) items handled t := by
  have hphase := I.phase
  have hoc := I.outcomes
  generalize hreplies : s.mi.results_queue ++ items.filterMap Item.reply? = replies at hphase
  cases h with
  | @take token klass msg queue hwaiting hqueue =>
    rw [hqueue, List.cons_append] at hreplies
    cases hphase with
    | idle => cases hreplies
    | sent => cases hreplies
    | @answered token' cmd klass' k results hwaiting' hnext hinput hanswer =>
      cases hwaiting.symm.trans hwaiting'
      obtain ⟨rfl, hrest⟩ := List.cons.inj hreplies
      have hsucc : sequential client process p (s.outcomes.length + 1) = _ := sequential_succ (hoc ▸ hnext)
      rw [hanswer] at hsucc
      obtain ⟨buffer, text, hpending⟩ := I.pending
      refine ⟨⟨buffer, text, hpending.congr rfl rfl⟩, ?_, I.accepted, I.debugger, ?_, ?_⟩
      · rw [emitted_snoc, I.notices]
        exact List.append_nil _
      · show s.outcomes ++ [_] = (sequential client process p (s.outcomes ++ [_]).length).2
        rw [List.length_append, List.length_singleton, hsucc, accept_eq_judge, ← hoc]
      · show Phase client process _ (sequential client process p (s.outcomes ++ [_]).length).1
          (queue ++ items.filterMap Item.reply?)
        rw [hrest, List.length_append, List.length_singleton, hsucc]
        exact .idle rfl hinput rfl

theorem Inv.step (I : Inv client process dbg p d as items handled s) {a : Action}
    (hn : ∀ n ∈ emitted [a], Accepts dbg n) (h : WholeStep client process dbg s a t) :
    ∃ items' handled', Inv client process dbg p d (as ++ [a]) items' handled' t := by
  obtain ⟨hstep, hwhole⟩ := h
  cases a with
  | send => exact ⟨items, handled, I.send hstep⟩
  | answer =>
    obtain ⟨item, I'⟩ := I.answer hstep
    exact ⟨_, handled, I'⟩
  | emit n => exact ⟨_, handled, I.emit (hn n (.head _)) hstep⟩
  | read bytes => exact I.read hwhole hstep
  | take => exact ⟨items, handled, I.take hstep⟩

theorem inv_init : Inv client process dbg p d [] [] [] (init p d) where
  pending := ⟨[], [], rfl, rfl, by decide, List.not_mem_nil, by decide, rfl, rfl⟩
  notices := rfl
  accepted _ h := absurd h List.not_mem_nil
  debugger := rfl
  outcomes := rfl
  phase := .idle rfl rfl rfl

theorem inv_of_run (hn : ∀ n ∈ emitted as, Accepts dbg n)
    (h : Transition.Run (WholeStep client process dbg) (init p d) as s) :
    ∃ items handled, Inv client process dbg p d as items handled s := by
  induction h with
  | nil => exact ⟨[], [], inv_init⟩
  | snoc _ hstep ih =>
    rw [emitted_snoc, List.forall_mem_append] at hn
    obtain ⟨items, handled, I⟩ := ih hn.1
    exact I.step hn.2 hstep

/-! ### The reading thread never ends, and `sync_cmd` never waits in vain -/

/-- Where there is something to read, it can be read in pieces that do not end behind a prompt. -/
theorem Inv.can_read (I : Inv client process dbg p d as items handled s) (hne : s.output ≠ []) :
    ∃ bytes t, WholeStep client process dbg s (.read bytes) t ∧ t.output.length < s.output.length ∧
      t.waiting = s.waiting ∧ t.outcomes = s.outcomes ∧ t.input = s.input := by
  obtain ⟨buffer, text, hpending⟩ := I.pending
  have htext : text ≠ [] := fun h => hne (hpending.output.trans (by rw [h]; rfl))
  obtain ⟨before, after, rfl, hbefore, hlength, hprompt⟩ := exists_piece htext hpending.unfinished
  have houtput := hpending.output
  rw [List.map_append] at houtput
  have hread : Step client process dbg s (.read (before.map Ascii.byte))
      (s.received dbg buffer (before.map Ascii.byte) (after.map Ascii.byte)) :=
    .read hpending.reader houtput (mt List.map_eq_nil_iff.mp hbefore) (by rw [List.length_map]; omega)
  have hwhole : ¬ BehindPrompt s (.read (before.map Ascii.byte)) := by
    rintro ⟨buffer', text, hreader, hdecode, hends⟩
    cases hpending.reader.symm.trans hreader
    rw [Ascii.decode_map_byte (Ascii.isAscii_append.mp hpending.ascii).1] at hdecode
    cases hdecode
    exact hprompt hends
  obtain ⟨reader, mi, heq⟩ := received_eq dbg buffer (before.map Ascii.byte) (after.map Ascii.byte) s
  refine ⟨_, _, ⟨hread, hwhole⟩, ?_⟩
  rw [heq]
  refine ⟨?_, rfl, rfl, rfl⟩
  have hpos := List.length_pos_iff.mpr hbefore
  rw [houtput, List.length_append, List.length_map, List.length_map]
  omega

/-- The output can be read to its end, while `sync_cmd` waits. -/
theorem Inv.drain (I : Inv client process dbg p d as items handled s) :
    ∃ bs t items' handled', Transition.Run (WholeStep client process dbg) s bs t ∧ t.output = [] ∧
      t.waiting = s.waiting ∧ t.outcomes = s.outcomes ∧ t.input = s.input ∧
      Inv client process dbg p d (as ++ bs) items' handled' t := by
  generalize hlength : s.output.length = n
  induction n using Nat.strongRecOn generalizing s as items handled with
  | ind n ih =>
    by_cases hempty : s.output = []
    · exact ⟨[], s, items, handled, .nil, hempty, rfl, rfl, rfl, by rwa [List.append_nil]⟩
    · obtain ⟨bytes, s', hread, hless, hwaiting, houtcomes, hinput⟩ := I.can_read hempty
      obtain ⟨items', handled', I'⟩ := I.read hread.2 hread.1
      obtain ⟨bs, t, items'', handled'', hrun, hend, hwaiting', houtcomes', hinput', I''⟩ := ih _ (hlength ▸ hless) I' rfl
      refine ⟨.read bytes :: bs, t, items'', handled'', .cons hread hrun, hend, hwaiting'.trans hwaiting,
        houtcomes'.trans houtcomes, hinput'.trans hinput, ?_⟩
      rwa [List.append_assoc] at I''

theorem Inv.items_eq_nil (I : Inv client process dbg p d as items handled s) (hempty : s.output = []) : items = [] := by
  obtain ⟨buffer, text, hpending⟩ := I.pending
  exact List.map_eq_nil_iff.mp (hpending.lines_eq_nil hempty)

/-- An answer that has been given reaches `sync_cmd`. -/
theorem Inv.finish (I : Inv client process dbg p d as items handled s) {w : Nat × ResultClass}
    (hwaiting : s.waiting = some w) (hinput : s.input = []) :
    ∃ bs t, Transition.Run (WholeStep client process dbg) s bs t ∧ t.outcomes.length = s.outcomes.length + 1 := by
  obtain ⟨bs, t, items', handled', hrun, hempty, hwaiting', houtcomes, hinput', I'⟩ := I.drain
  have hphase := I'.phase
  rw [I'.items_eq_nil hempty] at hphase
  generalize hreplies : t.mi.results_queue ++ [].filterMap Item.reply? = replies at hphase
  cases hphase with
  | idle hidle => cases (hwaiting'.trans hwaiting).symm.trans hidle
  | sent _ _ hsent =>
    rw [hinput', hinput] at hsent
    exact absurd hsent.symm (List.append_ne_nil_of_right_ne_nil _ (List.cons_ne_nil _ _))
  | answered hanswered =>
    rw [List.filterMap_nil, List.append_nil] at hreplies
    refine ⟨bs ++ [.take], _, hrun.snoc ⟨.take hanswered hreplies, id⟩, ?_⟩
    show (t.outcomes ++ [_]).length = _
    rw [List.length_append, List.length_singleton, houtcomes]

theorem Inv.complete (I : Inv client process dbg p d as items handled s) {w : Nat × ResultClass}
    (hwaiting : s.waiting = some w) :
    ∃ bs t, Transition.Run (WholeStep client process dbg) s bs t ∧ t.outcomes.length = s.outcomes.length + 1 := by
  have hphase := I.phase
  generalize s.mi.results_queue ++ items.filterMap Item.reply? = replies at hphase
  cases hphase with
  | idle hidle => cases hwaiting.symm.trans hidle
  | answered _ _ hinput => exact I.finish hwaiting hinput
  | @sent token cmd _ hsent hnext hinput hprocess =>
    have hanswer : Step client process dbg s .answer _ :=
      .answer hinput (newline_notMem_commandLine token (client.line _ _ _ hnext)) rfl
    obtain ⟨item, I'⟩ := I.answer hanswer
    obtain ⟨bs, t, hrun, hlen⟩ := I'.finish hsent rfl
    exact ⟨.answer :: bs, t, .cons ⟨hanswer, id⟩ hrun, hlen⟩

end Steps

/-- A thread that continues the target, and a gdb that says so -/
def continuing : Client where
  next outcomes := if outcomes.isEmpty then some (["-exec-continue".toList], .running) else none
  plain outcomes cmd klass h := by
    split at h
    · cases h
      rintro c hc
      cases hc
      rfl
    · cases h
  line outcomes cmd klass h := by
    split at h
    · cases h
      decide
    · cases h

def obedient : Process Unit where
  answer _ _ := ((), .running, [])
  readable _ _ := trivial
  closed _ _ := rfl
  ascii _ _ := by decide

end MiSession

end Avatar
