import Avatar.Bintools.MiParser

/-! # The parser of the machine interface comes to an end

Every loop reads at least one character in each round, and a value is read after at most three calls that read nothing.
So the rounds of the model are enough for every text, and what the parser raises is known. -/

namespace Avatar.MiParser
open ParseStream StateExcept

/-- What is raised while a text is parsed. There is no `ParseError` among it. -/
def StreamError (e : MiError) : Prop :=
  e = .python .assertionError ∨ e = .python .attributeError ∨ e = .python .keyError ∨ e = .python .typeError ∨
    e = .unboundLocalError

/-- At least `n` characters have been read, and no more than there are. -/
structure Advances (n : Nat) (s s' : ParseStream) : Prop where
  string : s'.string = s.string
  forward : s.pos + n ≤ s'.pos
  within : s'.pos ≤ s'.string.length

/-- The characters that have not been read -/
def left (s : ParseStream) : Nat := s.string.length - s.pos

namespace Advances
variable {n m : Nat} {s s' s'' : ParseStream}

theorem trans (h : Advances n s s') (h' : Advances m s' s'') : Advances (n + m) s s'' where
  string := h'.string.trans h.string
  forward := by
    have := h.forward
    have := h'.forward
    omega
  within := h'.within

theorem weaken (h : Advances n s s') (hle : m ≤ n) : Advances m s s' :=
  ⟨h.string, (Nat.add_le_add_left hle _).trans h.forward, h.within⟩

theorem left_le (h : Advances n s s') : left s' + n ≤ left s := by
  have hstring := h.string
  have hforward := h.forward
  have hwithin := h.within
  rw [hstring] at hwithin
  rw [left, left, hstring]
  omega

end Advances

/-! ### The stream -/

section Stream
variable {s : ParseStream}

/-- A program reads at least `n` characters, or raises what is raised while a text is parsed. -/
abbrev Reads {α : Type} (n : Nat) (x : ParseM α) (s : ParseStream) : Prop :=
  Ends x s (fun _ => Advances n s) fun e _ => StreamError e

theorem checkLimit_ends (s : ParseStream) :
    Ends checkLimit s (fun _ s' => s' = s ∧ s.pos < s.string.length) fun e _ => StreamError e := by
  by_cases h : s.pos ≥ s.string.length
  · have hraise : checkLimit s = .error (.python .attributeError) s := by
      show (if s.pos ≥ s.string.length then (throw _ : ParseM Unit) else pure ()) s = _
      rw [if_pos h]
      rfl
    exact .of_error hraise (.inr (.inl rfl))
  · refine Returns.ends ⟨(), s, ?_, rfl, Nat.lt_of_not_le h⟩
    show (if s.pos ≥ s.string.length then (throw _ : ParseM Unit) else pure ()) s = _
    rw [if_neg h]
    rfl

theorem char_reads (h : s.pos < s.string.length) : Reads 1 char s :=
  Returns.ends ⟨_, _, rfl, rfl, Nat.le_refl _, h⟩

theorem take_drop_eq_nil (h : s.string.length ≤ s.pos) (n : Nat) : (s.string.drop s.pos).take n = [] := by
  rw [List.drop_eq_nil_of_le h, List.take_nil]

theorem expectChar_reads (expected : Char) (s : ParseStream) : Reads 1 (expectChar expected) s := by
  show Reads 1 (read 1 >>= fun c =>
    if c ≠ [expected] then throw (.python (if c = [] then .typeError else .attributeError)) else pure ()) s
  refine Ends.bind (Q := fun c s' => c = (s.string.drop s.pos).take 1 ∧ s' = { s with pos := s.pos + 1 })
    (Returns.ends ⟨_, _, rfl, rfl, rfl⟩) ?_
  rintro c s' ⟨hc, rfl⟩
  split
  · refine .throw ?_
    split
    · exact .inr (.inr (.inr (.inl rfl)))
    · exact .inr (.inl rfl)
  · next heq =>
    rw [not_not] at heq
    refine .pure ⟨rfl, Nat.le_refl _, ?_⟩
    refine Nat.lt_of_not_le fun hle => ?_
    rw [take_drop_eq_nil hle, heq] at hc
    cases hc

theorem seek_ends (pos : Int) (s : ParseStream) :
    Ends (seek pos) s (fun _ s' => s' = { s with pos := pos.toNat } ∧ 0 ≤ pos ∧ pos < s.string.length)
      fun e _ => StreamError e := by
  by_cases h : 0 ≤ pos ∧ pos < s.string.length
  · exact Returns.ends ⟨(), _, if_pos h, rfl, h⟩
  · exact .of_error (if_neg h) (.inl rfl)

/-- A character that has been read is given back. -/
theorem back_ends (s : ParseStream) :
    Ends (back 1) { s with pos := s.pos + 1 } (fun _ s' => s' = s ∧ s.pos < s.string.length)
      fun e _ => StreamError e := by
  refine (seek_ends _ _).mono ?_
  rintro - s' ⟨rfl, -, hlt⟩
  rw [Nat.cast_add, Nat.cast_one, Int.add_sub_cancel] at hlt ⊢
  exact ⟨rfl, Int.ofNat_lt.mp hlt⟩

theorem peek_ends (s : ParseStream) :
    Ends peek s (fun _ s' => s' = s ∧ s.pos < s.string.length) fun e _ => StreamError e := by
  refine Ends.bind (Q := fun _ s' => s' = { s with pos := s.pos + 1 }) (Returns.ends ⟨_, _, rfl, rfl⟩) ?_
  rintro c - rfl
  exact (back_ends s).bind fun _ _ h => .pure h

theorem skip_reads (s : ParseStream) : Reads 1 (skip 1) s := by
  refine (seek_ends _ s).mono ?_
  rintro - s' ⟨rfl, -, hlt⟩
  exact ⟨rfl, Nat.le_refl _, Nat.le_of_lt (Int.ofNat_lt.mp hlt)⟩

theorem nextChar_reads (rc : Char) (h : s.pos ≤ s.string.length) : Reads 0 (nextChar rc) s := by
  show Reads 0 (if s.pos + 1 ≥ s.string.length then pure false
    else read 1 >>= fun c => if c ≠ [rc] then back 1 >>= fun _ => pure false else pure true) s
  split
  · exact .pure ⟨rfl, Nat.le_refl _, h⟩
  · next hlt =>
    refine Ends.bind (Q := fun _ s' => s' = { s with pos := s.pos + 1 }) (Returns.ends ⟨_, _, rfl, rfl⟩) ?_
    rintro c - rfl
    split
    · refine (back_ends s).bind ?_
      rintro - s' ⟨hs', -⟩
      rw [hs']
      exact .pure ⟨rfl, Nat.le_refl _, h⟩
    · exact .pure ⟨rfl, Nat.le_add_right _ _, Nat.le_of_lt (Nat.lt_of_not_le hlt)⟩

end Stream

/-! ### The loops over characters -/

section Chars
variable {s : ParseStream}

theorem cstringChars_reads {fuel : Nat} (hfuel : left s < fuel) (sb : List Char) :
    Reads 1 (cstringChars fuel sb) s := by
  induction fuel generalizing s sb with
  | zero => exact absurd hfuel (Nat.not_lt_zero _)
  | succ fuel ih =>
    rw [cstringChars]
    refine (checkLimit_ends s).bind ?_
    rintro - s₀ ⟨hs₀, hlt⟩
    rw [hs₀]
    refine (char_reads hlt).bind fun c s₁ h₁ => ?_
    have hleft := h₁.left_le
    split
    · refine Ends.bind (Q := fun e s₂ => e = (s₁.string.drop s₁.pos).take 1 ∧ s₂ = { s₁ with pos := s₁.pos + 1 })
        (Returns.ends ⟨_, _, rfl, rfl, rfl⟩) ?_
      rintro e - ⟨he, rfl⟩
      cases hlookup : escapeChars.lookup e with
      | none => exact .throw (.inr (.inr (.inl rfl)))
      | some x =>
        -- Nothing escapes the end of the text.
        have hne : s₁.pos < s₁.string.length := by
          refine Nat.lt_of_not_le fun hle => ?_
          rw [he, take_drop_eq_nil hle] at hlookup
          cases hlookup
        have h₂ : Advances 1 s₁ { s₁ with pos := s₁.pos + 1 } := ⟨rfl, Nat.le_refl _, hne⟩
        have hleft₂ := h₂.left_le
        exact (ih (by omega) _).mono fun _ _ h => ((h₁.trans h₂).trans h).weaken (by omega)
    · split
      · exact .pure h₁
      · exact (ih (by omega) _).mono fun _ _ h => (h₁.trans h).weaken (by omega)

theorem parseCstring_reads {fuel : Nat} (hfuel : left s ≤ fuel) :
    Reads 1 (parseCstring fuel) s := by
  refine (expectChar_reads '"' s).bind fun _ s₁ h₁ => ?_
  have hleft := h₁.left_le
  exact (cstringChars_reads (by omega) []).mono fun _ _ h => (h₁.trans h).weaken (by omega)

theorem variableChars_reads {fuel : Nat} (hfuel : left s < fuel) (sb : List Char) :
    Reads 1 (variableChars fuel sb) s := by
  induction fuel generalizing s sb with
  | zero => exact absurd hfuel (Nat.not_lt_zero _)
  | succ fuel ih =>
    rw [variableChars]
    refine (checkLimit_ends s).bind ?_
    rintro - s₀ ⟨hs₀, hlt⟩
    rw [hs₀]
    refine (char_reads hlt).bind fun c s₁ h₁ => ?_
    have hleft := h₁.left_le
    split
    · exact .pure h₁
    · exact (ih (by omega) _).mono fun _ _ h => (h₁.trans h).weaken (by omega)

end Chars

/-! ### The values -/

/-- The rounds that each call needs for what is left of the text -/
structure Enough (fuel : Nat) : Prop where
  parseTuple : ∀ s, s.pos < s.string.length → 3 * left s ≤ fuel → Reads 1 (parseTuple fuel) s
  parseList : ∀ s, s.pos < s.string.length → 3 * left s ≤ fuel → Reads 1 (parseList fuel) s
  listValues : ∀ s list, 3 * left s + 2 ≤ fuel → Reads 1 (listValues fuel list) s
  parseValue : ∀ s, 3 * left s + 1 ≤ fuel → Reads 1 (parseValue fuel) s
  parseResults : ∀ s, s.pos ≤ s.string.length → 3 * left s + 2 ≤ fuel → Reads 1 (parseResults fuel) s
  resultEntries : ∀ s results, 3 * left s + 1 ≤ fuel → Reads 1 (resultEntries fuel results) s

theorem left_pos {s : ParseStream} (h : s.pos < s.string.length) : 0 < left s := Nat.sub_pos_of_lt h

section Step
variable {fuel : Nat} {s : ParseStream}

theorem parseTuple_reads (E : Enough fuel) (hfuel : 3 * left s ≤ fuel + 1) :
    Reads 1 (parseTuple (fuel + 1)) s := by
  rw [parseTuple]
  refine (expectChar_reads '{' s).bind fun _ s₁ h₁ => ?_
  have hleft := h₁.left_le
  refine (peek_ends s₁).bind ?_
  rintro c s₂ ⟨rfl, -⟩
  split
  · exact .pure h₁
  · refine (E.parseResults _ h₁.within (by omega)).bind fun results s₃ h₃ => ?_
    refine (expectChar_reads '}' s₃).bind fun _ s₄ h₄ => .pure ?_
    exact ((h₁.trans h₃).trans h₄).weaken (by omega)

theorem parseList_reads (E : Enough fuel) (hfuel : 3 * left s ≤ fuel + 1) :
    Reads 1 (parseList (fuel + 1)) s := by
  rw [parseList]
  refine (expectChar_reads '[' s).bind fun _ s₁ h₁ => ?_
  have hleft := h₁.left_le
  refine (peek_ends s₁).bind ?_
  rintro c s₂ ⟨rfl, -⟩
  split
  · refine (E.listValues _ [] (by omega)).bind fun list s₃ h₃ => ?_
    refine (expectChar_reads ']' s₃).bind fun _ s₄ h₄ => .pure ?_
    exact ((h₁.trans h₃).trans h₄).weaken (by omega)
  · split
    · refine (skip_reads _).bind fun _ s₃ h₃ => .pure ?_
      exact (h₁.trans h₃).weaken (by omega)
    · refine (E.parseResults _ h₁.within (by omega)).bind fun results s₃ h₃ => ?_
      refine (expectChar_reads ']' s₃).bind fun _ s₄ h₄ => .pure ?_
      exact ((h₁.trans h₃).trans h₄).weaken (by omega)

theorem listValues_reads (E : Enough fuel) (list : List MiValue) (hfuel : 3 * left s + 2 ≤ fuel + 1) :
    Reads 1 (listValues (fuel + 1) list) s := by
  rw [listValues]
  refine (checkLimit_ends s).bind ?_
  rintro - s₀ ⟨rfl, -⟩
  refine (E.parseValue _ (by omega)).bind fun value s₁ h₁ => ?_
  have hleft := h₁.left_le
  refine (nextChar_reads ',' h₁.within).bind fun more s₂ h₂ => ?_
  have hleft₂ := h₂.left_le
  split
  · exact (E.listValues _ _ (by omega)).mono fun _ _ h => ((h₁.trans h₂).trans h).weaken (by omega)
  · exact .pure (h₁.trans h₂)

theorem parseValue_reads (E : Enough fuel) (hfuel : 3 * left s + 1 ≤ fuel + 1) :
    Reads 1 (parseValue (fuel + 1)) s := by
  rw [parseValue]
  refine (peek_ends s).bind ?_
  rintro c s₀ ⟨rfl, hne⟩
  split
  · exact (parseCstring_reads (by omega)).bind fun _ _ h => .pure h
  · split
    · exact E.parseTuple _ hne (by omega)
    · split
      · exact E.parseList _ hne (by omega)
      · exact .throw (.inr (.inr (.inr (.inr rfl))))

theorem parseResults_reads (E : Enough fuel) (hle : s.pos ≤ s.string.length) (hfuel : 3 * left s + 2 ≤ fuel + 1) :
    Reads 1 (parseResults (fuel + 1)) s := by
  rw [parseResults]
  refine (nextChar_reads ',' hle).bind fun more s₁ h₁ => ?_
  have hleft := h₁.left_le
  exact (E.resultEntries _ [] (by omega)).mono fun _ _ h => (h₁.trans h).weaken (by omega)

theorem resultEntries_reads (E : Enough fuel) (results : List (String × MiValue))
    (hfuel : 3 * left s + 1 ≤ fuel + 1) : Reads 1 (resultEntries (fuel + 1) results) s := by
  rw [resultEntries]
  refine (checkLimit_ends s).bind ?_
  rintro - s₀ ⟨rfl, hne⟩
  have hpos := left_pos hne
  refine Ends.bind (variableChars_reads (by omega) []) fun var s₁ h₁ => ?_
  have hleft := h₁.left_le
  refine (E.parseValue _ (by omega)).bind fun value s₂ h₂ => ?_
  have hleft₂ := h₂.left_le
  refine (nextChar_reads ',' h₂.within).bind fun more s₃ h₃ => ?_
  have hleft₃ := h₃.left_le
  split
  · exact (E.resultEntries _ _ (by omega)).mono fun _ _ h => (((h₁.trans h₂).trans h₃).trans h).weaken (by omega)
  · exact .pure (((h₁.trans h₂).trans h₃).weaken (by omega))

end Step

theorem enough_rounds (fuel : Nat) : Enough fuel := by
  induction fuel with
  | zero =>
    refine ⟨fun s hne h => ?_, fun s hne h => ?_, fun s _ h => ?_, fun s h => ?_, fun s _ h => ?_, fun s _ h => ?_⟩
    · exact absurd (left_pos hne) (by omega)
    · exact absurd (left_pos hne) (by omega)
    all_goals exact absurd h (by omega)
  | succ fuel E =>
    exact {
      parseTuple := fun s _ => parseTuple_reads E
      parseList := fun s _ => parseList_reads E
      listValues := fun s => listValues_reads E
      parseValue := fun s => parseValue_reads E
      parseResults := fun s => parseResults_reads E
      resultEntries := fun s => resultEntries_reads E }

/-! ### The records -/

theorem onStream_error {α : Type} {f : Nat → ParseM α} {string : List Char}
    (hf : Reads 0 (f (enough string)) ⟨string, 0⟩) {e : MiError} (h : onStream f string = .error e) : StreamError e := by
  rw [onStream] at h
  cases hrun : f (enough string) ⟨string, 0⟩ with
  | ok a s =>
    rw [hrun] at h
    cases h
  | error e' s =>
    rw [hrun] at h
    cases h
    exact hf.error hrun

theorem parseResults_error {string : List Char} {e : MiError} (h : onStream parseResults string = .error e) :
    StreamError e := by
  have hfuel : 3 * left ⟨string, 0⟩ + 2 ≤ enough string := by
    rw [left, enough]
    show 3 * (string.length - 0) + 2 ≤ _
    omega
  exact onStream_error (((enough_rounds _).parseResults _ (Nat.zero_le _) hfuel).mono fun _ _ h => h.weaken (by omega)) h

theorem parseCstring_error {string : List Char} {e : MiError} (h : onStream parseCstring string = .error e) :
    StreamError e := by
  have hfuel : left ⟨string, 0⟩ ≤ enough string := by
    rw [left, enough]
    show string.length - 0 ≤ _
    omega
  exact onStream_error ((parseCstring_reads hfuel).mono fun _ _ h => h.weaken (by omega)) h

theorem groupResults_error {group : Option (List Char)} {e : MiError} (h : groupResults group = .error e) :
    StreamError e := by
  cases group with
  | none => cases h
  | some text => exact parseResults_error (error_of_map h)

/-- The token of a result has only digits. -/
theorem token_of_search {line token : List Char} {klass : ResultClass} {group : Option (List Char)}
    (h : MiResult.search line = some (token, klass, group)) : token ≠ [] ∧ ∀ c ∈ token, c.isDigit = true := by
  induction line with
  | nil => cases h
  | cons c rest ih =>
    rw [MiResult.search] at h
    split at h
    · next d token' tail htake _ =>
      split at h
      · cases h
        refine ⟨List.cons_ne_nil _ _, fun x hx => ?_⟩
        rw [← htake] at hx
        exact List.mem_takeWhile_imp hx
      · exact ih h
    · exact ih h

/-- The line is a record as far as its first character and the pattern for its kind tell. -/
def Matched : List Char → Prop
  | [] => False
  | c :: rest =>
    if (Async.map c).isSome then Async.search (c :: rest) ≠ none
    else (MiStream.map c).isSome ∨ c.isDigit = true ∧ MiResult.search (c :: rest) ≠ none

theorem not_streamError_parseError : ¬ StreamError .parseError := by
  intro h
  rcases h with h | h | h | h | h <;> cases h

/-- Without a match there is a `ParseError`, and with one any other exception. -/
abbrev Fails {α : Type} (matched : Prop) (x : Except MiError α) : Prop :=
  (¬ matched → x = .error .parseError) ∧ (matched → ∀ e, x = .error e → StreamError e)

theorem Fails.map {α β : Type} {matched : Prop} {x : Except MiError α} (h : Fails matched x) (f : α → β) :
    Fails matched (x.map f) := by
  refine ⟨fun hnot => ?_, fun hmatched e he => h.2 hmatched e (error_of_map he)⟩
  rw [h.1 hnot]
  rfl

theorem async_fails (line : List Char) : Fails (Async.search line ≠ none) (Async.ofLine line) := by
  unfold Async.ofLine
  cases hsearch : Async.search line with
  | none => exact ⟨fun _ => rfl, fun h => absurd rfl h⟩
  | some groups => exact ⟨fun h => absurd (Option.some_ne_none _) h, fun _ e h => groupResults_error (error_of_map h)⟩

theorem result_fails (line : List Char) : Fails (MiResult.search line ≠ none) (MiResult.ofLine line) := by
  unfold MiResult.ofLine
  cases hsearch : MiResult.search line with
  | none => exact ⟨fun _ => rfl, fun h => absurd rfl h⟩
  | some groups =>
    refine ⟨fun h => absurd (Option.some_ne_none _) h, fun _ e h => ?_⟩
    obtain ⟨token, klass, group⟩ := groups
    obtain ⟨hne, hdigits⟩ := token_of_search hsearch
    obtain ⟨v, hv⟩ := Option.isSome_iff_exists.mp (Numeral.isSome_parse_of_isDigit hdigits hne)
    have hint : int token 10 = .ok v := by rw [int, hv]
    rcases error_of_bind h with h | ⟨_, -, h⟩
    · rw [hint] at h
      cases h
    · rcases error_of_bind h with h | ⟨_, -, h⟩
      · exact groupResults_error h
      · cases h

theorem parse_fails (line : List Char) : Fails (Matched line) (parse line) := by
  cases line with
  | nil => exact ⟨fun _ => rfl, False.elim⟩
  | cons c rest =>
    rw [Matched, parse]
    by_cases hasync : (Async.map c).isSome = true
    · rw [if_pos hasync, if_pos hasync]
      exact (async_fails _).map _
    · rw [if_neg hasync, if_neg hasync]
      cases hmap : MiStream.map c with
      | some type => exact ⟨fun h => absurd (.inl rfl) h, fun _ e h => parseCstring_error (error_of_map h)⟩
      | none =>
        simp only [Option.isSome_none, Bool.false_eq_true, false_or]
        by_cases hdigit : c.isDigit = true
        · rw [if_pos hdigit, eq_true hdigit, true_and]
          exact (result_fails _).map _
        · rw [if_neg hdigit]
          exact ⟨fun _ => rfl, fun h => absurd h.1 hdigit⟩

/-- Every line, of ASCII characters as the reader decodes them, is parsed in the rounds of the model. It raises a
    `ParseError` exactly if no pattern matches it. A record that is malformed behind its class raises something else, and
    nothing that the reader catches. -/
theorem parse_outcome (line : List Char) :
    (parse line = .error .parseError ↔ ¬ Matched line) ∧
      ∀ e, parse line = .error e → e = .parseError ∨ StreamError e := by
  obtain ⟨hnot, hmatched⟩ := parse_fails line
  by_cases h : Matched line
  · exact ⟨⟨fun he => absurd (hmatched h _ he) not_streamError_parseError, fun hm => absurd h hm⟩,
      fun e he => .inr (hmatched h e he)⟩
  · refine ⟨⟨fun _ => h, hnot⟩, fun e he => .inl ?_⟩
    rw [hnot h] at he
    exact (Except.error.inj he).symm

end Avatar.MiParser
