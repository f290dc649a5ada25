import Avatar.Emulators.S2eEmulator
import Avatar.Targets.GdbserverTarget

/-! The options of breakpoints that a debugger sets. They are keyword arguments, but only their names are handed to
    the debugger, as its arguments by position: the first is taken for a true `hardware`, the second for a true
    `temporary`, and with a third the assertion on `regex` fails. -/

namespace Avatar.GdbDebugger.BreakpointOptions
open StateExcept

variable {σ α : Type} {address : Int}

/-- The options, and a property of which the debugger does not know -/
inductive Property where
  | temporary
  | hardware
  | regex
  | condition
  | ignoreCount
  | thread
  | thumb
deriving DecidableEq, Repr

def Property.name : Property → String
  | temporary => "temporary"
  | hardware => "hardware"
  | regex => "regex"
  | condition => "condition"
  | ignoreCount => "ignore_count"
  | thread => "thread"
  | thumb => "thumb"

/-- Keyword arguments, in the order in which they are given -/
structure Properties where
  entries : List (Property × PyValue)
  nodup : (entries.map (·.1)).Nodup

namespace Properties

def keywords (properties : Properties) : List (String × PyValue) :=
  properties.entries.map fun entry => (entry.1.name, entry.2)

/-- What there is for the debugger -/
def options (properties : Properties) : List (Property × PyValue) := properties.entries.filter (·.1 ≠ .thumb)

/-- The names of the options, as the values that the debugger gets -/
def args (properties : Properties) : List PyValue := properties.options.map fun entry => .str entry.1.name.toList

/-- The value of an option; one that is not given is `None`. -/
def value (properties : Properties) (option : Property) : PyValue := (properties.options.lookup option).getD .none

end Properties

inductive Switch where
  | temporary
  | hardware
  | regex
  | condition (expression : List Char)
  | ignoreCount (count : List Char)
  | thread (number : List Char)

namespace Switch

def words : Switch → List (List Char)
  | temporary => ["-t".toList]
  | hardware => ["-h".toList]
  | regex => ["-r".toList]
  | condition expression => ["-c".toList, expression]
  | ignoreCount count => ["-i".toList, count]
  | thread number => ["-p".toList, number]

/-- The option of a switch -/
def property : Switch → Property
  | temporary => .temporary
  | hardware => .hardware
  | regex => .regex
  | condition _ => .condition
  | ignoreCount _ => .ignoreCount
  | thread _ => .thread

end Switch

/-- The switch of an option that is true -/
def given (value : PyValue) (switch : Except PyException Switch) : Except PyException (List Switch) :=
  if value.truthy then switch.map fun switch => [switch] else .ok []

/-- The switches that stand for the options. A count that is no number has none. -/
def switches (properties : Properties) : Except PyException (List Switch) := do
  let temporary ← given (properties.value .temporary) (.ok .temporary)
  let hardware ← given (properties.value .hardware) (.ok .hardware)
  let regex ← given (properties.value .regex) (.ok .regex)
  let condition ← given (properties.value .condition) (.ok (.condition (properties.value .condition).text))
  let ignoreCount ← given (properties.value .ignoreCount) ((properties.value .ignoreCount).decimal.map .ignoreCount)
  let thread ← given (properties.value .thread) ((properties.value .thread).decimal.map .thread)
  return temporary ++ hardware ++ regex ++ condition ++ ignoreCount ++ thread

/-- A command that has the switches of the options, in any order -/
def Means (address : Int) (properties : Properties) (cmd : List (List Char)) : Prop :=
  ∃ given order, switches properties = .ok given ∧ List.Perm order given ∧
    cmd = "-break-insert".toList :: (order.flatMap Switch.words ++ [location (.int address)])

/-! ### What is given -/

section Given
variable {properties : Properties} {option : Property} {switch : Except PyException Switch} {l : List Switch}
  {s : Switch}

theorem truthy_of_mem_given (hswitch : ∀ s, switch = .ok s → s.property = option)
    (h : given (properties.value option) switch = .ok l) (hs : s ∈ l) :
    (properties.value s.property).truthy = true := by
  rw [given] at h
  split at h
  · rename_i htruthy
    obtain ⟨s', hs', rfl⟩ := exists_of_map_ok h
    rw [List.mem_singleton.mp hs, hswitch s' hs']
    exact htruthy
  · cases h
    cases hs

/-- Only a true option has a switch. -/
theorem truthy_of_mem_switches (h : switches properties = .ok l) (hs : s ∈ l) :
    (properties.value s.property).truthy = true := by
  obtain ⟨temporary, htemporary, h⟩ := exists_of_bind_ok h
  obtain ⟨hardware, hhardware, h⟩ := exists_of_bind_ok h
  obtain ⟨regex, hregex, h⟩ := exists_of_bind_ok h
  obtain ⟨condition, hcondition, h⟩ := exists_of_bind_ok h
  obtain ⟨ignoreCount, hignoreCount, h⟩ := exists_of_bind_ok h
  obtain ⟨thread, hthread, h⟩ := exists_of_bind_ok h
  cases h
  have hnumber (make : List Char → Switch) (option : Property) (hmake : ∀ number, (make number).property = option)
      {x : Except PyException (List Char)} (s : Switch) (h : x.map make = .ok s) : s.property = option := by
    obtain ⟨number, -, rfl⟩ := exists_of_map_ok h
    exact hmake number
  simp only [List.mem_append] at hs
  rcases hs with ((((hs | hs) | hs) | hs) | hs) | hs
  · exact truthy_of_mem_given (by rintro s ⟨⟩; rfl) htemporary hs
  · exact truthy_of_mem_given (by rintro s ⟨⟩; rfl) hhardware hs
  · exact truthy_of_mem_given (by rintro s ⟨⟩; rfl) hregex hs
  · exact truthy_of_mem_given (by rintro s ⟨⟩; rfl) hcondition hs
  · exact truthy_of_mem_given (hnumber .ignoreCount .ignoreCount fun _ => rfl) hignoreCount hs
  · exact truthy_of_mem_given (hnumber .thread .thread fun _ => rfl) hthread hs

end Given

/-! ### Commands -/

/-- A switch of a command stands for the option that it is made of. -/
theorem given_of_switch {value : PyValue} (make : Except PyException Switch)
    {words : Except PyException (List (List Char))} {l : List (List Char)} (h : switch value words = .ok l)
    (hmake : words = .ok l → ∃ s, make = .ok s ∧ s.words = l) :
    ∃ switches, given value make = .ok switches ∧ switches.flatMap Switch.words = l := by
  rw [switch] at h
  rw [given]
  split
  · rename_i htruthy
    obtain ⟨s, rfl, rfl⟩ := hmake ((if_pos htruthy).symm.trans h)
    exact ⟨[s], rfl, List.append_nil _⟩
  · rename_i hfalse
    cases (if_neg hfalse).symm.trans h
    exact ⟨[], rfl, rfl⟩

/-- The debugger itself keeps all options, if they are given to it by their names. -/
theorem insertBreakpointCommand_means {properties : Properties} {cmd : List (List Char)}
    (h : insertBreakpointCommand (.int address) (properties.value .hardware) (properties.value .temporary)
      (properties.value .regex) (properties.value .condition) (properties.value .ignoreCount)
      (properties.value .thread) = .ok cmd) : Means address properties cmd := by
  obtain ⟨_, htemporary', h⟩ := exists_of_bind_ok h
  obtain ⟨_, hhardware', h⟩ := exists_of_bind_ok h
  obtain ⟨_, hregex', h⟩ := exists_of_bind_ok h
  obtain ⟨_, hcondition', h⟩ := exists_of_bind_ok h
  obtain ⟨_, hignoreCount', h⟩ := exists_of_bind_ok h
  obtain ⟨_, hthread', h⟩ := exists_of_bind_ok h
  cases h
  have hnumber {value : PyValue} {word : List Char} {make : List Char → Switch}
      (hmake : ∀ number, (make number).words = [word, number]) {l : List (List Char)}
      (h : (value.decimal.map fun number => [word, number]) = .ok l) :
      ∃ s, value.decimal.map make = .ok s ∧ s.words = l := by
    obtain ⟨number, hnumber, rfl⟩ := exists_of_map_ok h
    exact ⟨make number, by rw [hnumber]; rfl, hmake number⟩
  obtain ⟨temporary, htemporary, rfl⟩ := given_of_switch (.ok .temporary) htemporary'
    fun h => ⟨_, rfl, Except.ok.inj h⟩
  obtain ⟨hardware, hhardware, rfl⟩ := given_of_switch (.ok .hardware) hhardware' fun h => ⟨_, rfl, Except.ok.inj h⟩
  obtain ⟨regex, hregex, rfl⟩ := given_of_switch (.ok .regex) hregex' fun h => by
    split at h
    · exact ⟨_, rfl, Except.ok.inj h⟩
    · cases h
  obtain ⟨condition, hcondition, rfl⟩ := given_of_switch (.ok (.condition (properties.value .condition).text))
    hcondition' fun h => ⟨_, rfl, Except.ok.inj h⟩
  obtain ⟨ignoreCount, hignoreCount, rfl⟩ := given_of_switch
    ((properties.value .ignoreCount).decimal.map .ignoreCount) hignoreCount' (hnumber fun _ => rfl)
  obtain ⟨thread, hthread, rfl⟩ := given_of_switch ((properties.value .thread).decimal.map .thread) hthread'
    (hnumber fun _ => rfl)
  refine ⟨temporary ++ hardware ++ regex ++ condition ++ ignoreCount ++ thread, _, ?_, .refl _, ?_⟩
  · rw [switches, htemporary, hhardware, hregex, hcondition, hignoreCount, hthread]
    rfl
  · simp only [List.flatMap_append]

/-- The first word of a switch says which one it is, and two of them are the only word. -/
theorem eq_cons_of_words {s : Switch} (hs : s = .temporary ∨ s = .hardware) {order : List Switch}
    {words : List (List Char)} (h : order.flatMap Switch.words = s.words ++ words) :
    ∃ rest, order = s :: rest ∧ rest.flatMap Switch.words = words := by
  cases order with
  | nil => rcases hs with rfl | rfl <;> cases h
  | cons s' rest =>
    rw [List.flatMap_cons] at h
    rcases hs with rfl | rfl <;> cases s' <;> first | exact ⟨rest, rfl, List.tail_eq_of_cons_eq h⟩ | cases h

theorem words_of_command {order : List Switch} (words : List (List Char)) {place : List Char}
    (h : (.ok ("-break-insert".toList :: (words ++ [place])) : Except PyException (List (List Char))) =
      .ok ("-break-insert".toList :: (order.flatMap Switch.words ++ [place]))) :
    order.flatMap Switch.words = words :=
  (List.append_cancel_right (List.cons.inj (Except.ok.inj h)).2).symm

/-- What a call may contain for the debugger to understand it -/
inductive Understood (properties : Properties) : Prop
  | plain (h : properties.options = [])
  | hardware {v} (hv : v.truthy = true) (h : properties.options = [(.hardware, v)])
  | temporary {v w} (hv : v.truthy = true) (hw : w.truthy = true)
    (h : properties.options = [(.hardware, v), (.temporary, w)] ∨ properties.options = [(.temporary, w), (.hardware, v)])

theorem truthy_name (option : Property) : (PyValue.str option.name.toList).truthy = true := by
  cases option <;> rfl

/-- The names of the options are handed to the debugger. -/
theorem args_eq (properties : Properties) :
    (properties.keywords.filter (·.1 ≠ "thumb")).map (fun property => PyValue.str property.1.toList) =
      properties.args := by
  have hthumb : ((fun property : String × PyValue => decide (property.1 ≠ "thumb")) ∘
      fun entry : Property × PyValue => (entry.1.name, entry.2)) = fun entry => decide (entry.1 ≠ .thumb) := by
    funext ⟨option, value⟩
    cases option <;> rfl
  rw [Properties.keywords, Properties.args, Properties.options, List.filter_map, hthumb, List.map_map]
  rfl

section Positional
variable {a b c : PyValue} (line : PyValue) (ha : a.truthy = true) (hb : b.truthy = true) (hc : c.truthy = true)

include ha in
theorem positionalCommand_one :
    positionalCommand line [a] = .ok ["-break-insert".toList, "-h".toList, location line] := by
  have hswitch : switch a (.ok ["-h".toList]) = .ok ["-h".toList] := if_pos ha
  show insertBreakpointCommand line a (.bool false) (.bool false) .none (.int 0) (.int 0) = _
  rw [insertBreakpointCommand, hswitch]
  rfl

include ha hb in
theorem positionalCommand_two :
    positionalCommand line [a, b] = .ok ["-break-insert".toList, "-t".toList, "-h".toList, location line] := by
  have htemporary : switch b (.ok ["-t".toList]) = .ok ["-t".toList] := if_pos hb
  have hhardware : switch a (.ok ["-h".toList]) = .ok ["-h".toList] := if_pos ha
  show insertBreakpointCommand line a b (.bool false) .none (.int 0) (.int 0) = _
  rw [insertBreakpointCommand, htemporary, hhardware]
  rfl

include ha hb hc in
/-- A third name is a true `regex`, and `temporary` is true. -/
theorem insertBreakpointCommand_regex (condition ignore_count thread : PyValue) :
    insertBreakpointCommand line a b c condition ignore_count thread = .error .assertionError := by
  have htemporary : switch b (.ok ["-t".toList]) = .ok ["-t".toList] := if_pos hb
  have hhardware : switch a (.ok ["-h".toList]) = .ok ["-h".toList] := if_pos ha
  rw [insertBreakpointCommand, htemporary, hhardware]
  simp only [bind, Except.bind, switch, if_pos hc, hb, not_true_eq_false, false_and, if_false]

include ha hb hc in
theorem positionalCommand_more (args : List PyValue) :
    ∃ e, positionalCommand line (a :: b :: c :: args) = .error e := by
  by_cases hlength : (a :: b :: c :: args).length > 6
  · exact ⟨.typeError, if_pos hlength⟩
  · exact ⟨.assertionError, (if_neg hlength).trans (insertBreakpointCommand_regex line ha hb hc _ _ _)⟩

end Positional

/-! ### What is sent -/

/-- A gdb that keeps the commands which it gets -/
def recorded (gdb : Gdb σ) : Gdb (σ × List (List (List Char))) := fun cmd (process, commands) =>
  match gdb cmd process with
  | .ok result process => .ok result (process, commands ++ [cmd])
  | .error e process => .error e (process, commands ++ [cmd])

/-- The commands that a program sends -/
def commands (program : DebuggerM (σ × List (List (List Char))) α) (s : GdbDebugger σ) : List (List (List Char)) :=
  (final (program ⟨(s.gdb, []), s.register_names⟩)).gdb.2

theorem final_python {β : Type} (x : Except PyException α) (f : α → β) (s : GdbDebugger σ) :
    final ((do let a ← python x; return f a : DebuggerM σ β) s) = s := by
  cases x <;> rfl

theorem commands_setBreakpoint (gdb : Gdb σ) (address : Int) (properties : Properties) (s : GdbDebugger σ) :
    commands (setBreakpoint (recorded gdb) address properties.keywords) s =
      match positionalCommand (.int address) properties.args with
      | .ok cmd => [cmd]
      | .error _ => [] := by
  have hinsert : setBreakpoint (recorded gdb) address properties.keywords = (do
      let bkpt ← insertBreakpoint (recorded gdb) (.int address) properties.args
      let number ← python (results "bkpt" bkpt >>= MiValue.member "number" >>= MiValue.decimal)
      return ⟨number, address⟩) := by
    rw [← args_eq]
    rfl
  rw [commands, hinsert]
  cases hcmd : positionalCommand (.int address) properties.args with
  | error e =>
    have herror : insertBreakpoint (recorded gdb) (.int address) properties.args ⟨(s.gdb, []), s.register_names⟩ =
        .error (.python e) ⟨(s.gdb, []), s.register_names⟩ := by
      rw [insertBreakpoint, hcmd]
      rfl
    rw [bind_error herror]
    rfl
  | ok cmd =>
    have hsync : insertBreakpoint (recorded gdb) (.int address) properties.args ⟨(s.gdb, []), s.register_names⟩ =
        syncCmd (recorded gdb) cmd ⟨(s.gdb, []), s.register_names⟩ := by
      rw [insertBreakpoint, hcmd]
      rfl
    cases hgdb : gdb cmd s.gdb with
    | ok result process =>
      have hok : syncCmd (recorded gdb) cmd ⟨(s.gdb, []), s.register_names⟩ =
          .ok result ⟨(process, [cmd]), s.register_names⟩ := by
        simp only [syncCmd, recorded, hgdb, List.nil_append]
      rw [bind_ok (hsync.trans hok), final_python]
    | error e process =>
      have herror : syncCmd (recorded gdb) cmd ⟨(s.gdb, []), s.register_names⟩ =
          .error e ⟨(process, [cmd]), s.register_names⟩ := by
        simp only [syncCmd, recorded, hgdb, List.nil_append]
      rw [bind_error (hsync.trans herror)]
      rfl

/-! ### All calls -/

/-- The one command that a call sends has the switches of its options. -/
def OptionsKept (setBreakpoint : Int → List (String × PyValue) → DebuggerM (σ × List (List (List Char))) α)
    (s : GdbDebugger σ) (address : Int) (properties : Properties) : Prop :=
  ∃ cmd, commands (setBreakpoint address properties.keywords) s = [cmd] ∧ Means address properties cmd

theorem switches_of_flags {properties : Properties}
    (h : ∀ option, option ≠ .temporary → option ≠ .hardware → properties.value option = .none) :
    switches properties = .ok ((if (properties.value .temporary).truthy then [.temporary] else []) ++
      if (properties.value .hardware).truthy then [.hardware] else []) := by
  rw [switches, h .regex (by decide) (by decide), h .condition (by decide) (by decide),
    h .ignoreCount (by decide) (by decide), h .thread (by decide) (by decide)]
  unfold given
  split <;> split <;> rfl

theorem exists_of_truthy {properties : Properties} {option : Property}
    (h : (properties.value option).truthy = true) : ∃ v, v.truthy = true ∧ (option, v) ∈ properties.options := by
  rw [Properties.value] at h
  cases hlookup : properties.options.lookup option with
  | none =>
    rw [hlookup] at h
    cases h
  | some v =>
    rw [hlookup] at h
    obtain ⟨front, behind, hoptions, -⟩ := List.lookup_eq_some_iff.mp hlookup
    exact ⟨v, h, hoptions ▸ List.mem_append_right _ (.head _)⟩

theorem means_of_understood {properties : Properties} (h : Understood properties) :
    ∃ cmd, positionalCommand (.int address) properties.args = .ok cmd ∧ Means address properties cmd := by
  cases h with
  | plain h =>
    have hvalue (option : Property) : properties.value option = .none := by
      rw [Properties.value, h]
      rfl
    have hswitches := switches_of_flags fun option _ _ => hvalue option
    rw [hvalue, hvalue] at hswitches
    rw [Properties.args, h]
    exact ⟨_, rfl, [], [], hswitches, .refl _, rfl⟩
  | @hardware v hv h =>
    have hvalue (option : Property) (hne : option ≠ .hardware) : properties.value option = .none := by
      rw [Properties.value, h, List.lookup_cons, beq_false_of_ne hne]
      rfl
    have hhardware : properties.value .hardware = v := by
      rw [Properties.value, h]
      rfl
    have hswitches := switches_of_flags fun option _ hne => hvalue option hne
    rw [hvalue .temporary (by decide), hhardware, if_pos hv] at hswitches
    rw [Properties.args, h]
    exact ⟨_, positionalCommand_one _ (truthy_name .hardware), _, _, hswitches, .refl _, rfl⟩
  | @temporary v w hv hw h =>
    have htwo : properties.value .temporary = w ∧ properties.value .hardware = v ∧
        ∀ option, option ≠ .temporary → option ≠ .hardware → properties.value option = .none := by
      simp only [Properties.value]
      rcases h with h | h
      · rw [h]
        refine ⟨rfl, rfl, fun option ht hh => ?_⟩
        rw [List.lookup_cons, beq_false_of_ne hh, List.lookup_cons, beq_false_of_ne ht]
        rfl
      · rw [h]
        refine ⟨rfl, rfl, fun option ht hh => ?_⟩
        rw [List.lookup_cons, beq_false_of_ne ht, List.lookup_cons, beq_false_of_ne hh]
        rfl
    obtain ⟨htemporary, hhardware, hvalue⟩ := htwo
    have hswitches := switches_of_flags hvalue
    rw [htemporary, hhardware, if_pos hw, if_pos hv] at hswitches
    refine ⟨_, ?_, _, _, hswitches, .refl _, rfl⟩
    rw [Properties.args]
    rcases h with h | h
    · rw [h]
      exact positionalCommand_two _ (truthy_name .hardware) (truthy_name .temporary)
    · rw [h]
      exact positionalCommand_two _ (truthy_name .temporary) (truthy_name .hardware)

theorem understood_of_means {properties : Properties} {cmd : List (List Char)}
    (h : positionalCommand (.int address) properties.args = .ok cmd) (hmeans : Means address properties cmd) :
    Understood properties := by
  obtain ⟨l, order, hswitches, horder, rfl⟩ := hmeans
  have htruthy {s : Switch} (hs : s ∈ order) :
      ∃ v, v.truthy = true ∧ (s.property, v) ∈ properties.options :=
    exists_of_truthy (truthy_of_mem_switches hswitches (horder.mem_iff.mp hs))
  cases hoptions : properties.options with
  | nil => exact .plain hoptions
  | cons e options =>
    rw [Properties.args, hoptions] at h
    rw [hoptions] at htruthy
    cases options with
    | nil =>
      have hwords := words_of_command ["-h".toList] ((positionalCommand_one _ (truthy_name e.1)).symm.trans h)
      obtain ⟨rest, rfl, -⟩ := eq_cons_of_words (.inr rfl) hwords
      obtain ⟨v, hv, hmem⟩ := htruthy (.head _)
      exact .hardware hv (hoptions.trans (congrArg (fun e => [e]) (List.mem_singleton.mp hmem).symm))
    | cons e' options =>
      cases options with
      | nil =>
        have hwords := words_of_command ["-t".toList, "-h".toList]
          ((positionalCommand_two _ (truthy_name e.1) (truthy_name e'.1)).symm.trans h)
        obtain ⟨rest, rfl, hrest⟩ := eq_cons_of_words (.inl rfl) hwords
        obtain ⟨rest, rfl, -⟩ := eq_cons_of_words (.inr rfl) hrest
        obtain ⟨w, hw, htemporary⟩ := htruthy (.head _)
        obtain ⟨v, hv, hhardware⟩ := htruthy (.tail _ (.head _))
        refine .temporary hv hw ?_
        rw [hoptions]
        rcases List.mem_pair.mp htemporary with rfl | rfl
        · rcases List.mem_pair.mp hhardware with heq | rfl
          · cases heq
          · exact .inr rfl
        · rcases List.mem_pair.mp hhardware with rfl | heq
          · exact .inl rfl
          · cases heq
      | cons e'' options =>
        obtain ⟨error, herror⟩ := positionalCommand_more (.int address) (truthy_name e.1) (truthy_name e'.1)
          (truthy_name e''.1) (options.map fun entry => .str entry.1.name.toList)
        cases herror.symm.trans h

theorem optionsKept_iff (gdb : Gdb σ) (s : GdbDebugger σ) (address : Int) (properties : Properties) :
    OptionsKept (setBreakpoint (recorded gdb)) s address properties ↔ Understood properties := by
  constructor
  · rintro ⟨cmd, hsent, hmeans⟩
    rw [commands_setBreakpoint] at hsent
    split at hsent
    · rename_i cmd' hcmd
      cases hsent
      exact understood_of_means hcmd hmeans
    · cases hsent
  · intro h
    obtain ⟨cmd, hcmd, hmeans⟩ := means_of_understood h
    refine ⟨cmd, ?_, hmeans⟩
    rw [commands_setBreakpoint, hcmd]

/-- The target and the emulator keep the options of a breakpoint if there are none, or there is a true `hardware`, with
    or without a true `temporary`. -/
theorem both_keep_options_iff (gdb : Gdb σ) (s : GdbDebugger σ) (address : Int) (properties : Properties) :
    (OptionsKept (GdbserverTarget.setBreakpoint (recorded gdb)) s address properties ↔ Understood properties) ∧
    (OptionsKept (S2EEmulator.setBreakpoint (recorded gdb)) s address properties ↔ Understood properties) :=
  ⟨optionsKept_iff gdb s address properties, optionsKept_iff gdb s address properties⟩

/-- A gdb that sets every breakpoint -/
def settingGdb : Gdb Unit := fun _ => pure (some (.tuple [("bkpt", .tuple [("number", .const ['1'])])]))

/-- A temporary breakpoint is set as a hardware breakpoint. -/
theorem temporary_not_kept : ¬ OptionsKept (GdbserverTarget.setBreakpoint (recorded settingGdb)) ⟨(), none⟩ 0x8000
    ⟨[(.temporary, .bool true)], by decide⟩ := by
  intro h
  have hunderstood := (optionsKept_iff settingGdb ⟨(), none⟩ 0x8000 ⟨[(.temporary, .bool true)], by decide⟩).mp h
  cases hunderstood with
  | plain h => cases h
  | hardware _ h => cases h
  | temporary _ _ h => rcases h with h | h <;> cases h

end Avatar.GdbDebugger.BreakpointOptions
