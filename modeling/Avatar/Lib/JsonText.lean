import Mathlib.Data.List.TakeWhile
import Avatar.Lib.Json

/-! The texts of JSON values. The reader accepts exactly the texts of the grammar, nothing in front of the end of an
    object is a text, and what the writer writes is one line. -/

namespace Json

/-! ### White space -/

section Space
variable {w s : List Char}

/-- A text that does not begin with white space. -/
def Starts (s : List Char) : Prop := ∀ c ∈ s.head?, isSpace c = false

theorem skip_append (hw : Space w) (hs : Starts s) : skip (w ++ s) = s := by
  induction w with
  | nil =>
    cases s with
    | nil => rfl
    | cons c s =>
      have hc : isSpace c = false := hs c rfl
      rw [List.nil_append, skip, List.dropWhile_cons_of_neg (by simp [hc])]
  | cons c w ih =>
    have hc : isSpace c = true := hw c (.head _)
    rw [List.cons_append, skip, List.dropWhile_cons_of_pos hc]
    exact ih fun c hc => hw c (.tail _ hc)

theorem skip_space (hw : Space w) : skip w = [] := by
  have h := skip_append (s := []) hw fun c hc => by cases hc
  rwa [List.append_nil] at h

theorem exists_skip (s : List Char) : ∃ w, s = w ++ skip s ∧ Space w := by
  refine ⟨s.takeWhile isSpace, List.takeWhile_append_dropWhile.symm, fun c hc => ?_⟩
  exact List.mem_takeWhile_imp hc

end Space

/-! ### Strings -/

section Chars
variable {u : Str} {s t rest : List Char} {c : Char} {n : Nat}

theorem chars_plain (h : isPlain c = true) :
    chars (c :: rest) = (chars rest).map fun r => (utf16 c ++ r.1, r.2) := by
  have hquote : c ≠ '"' := by
    rintro rfl
    cases h
  have hbackslash : c ≠ '\\' := by
    rintro rfl
    cases h
  rw [chars, if_pos h]
  · cases chars rest with
    | none => rfl
    | some r => rfl
  · exact hquote
  · exact fun _ _ _ _ _ heq _ => hbackslash heq
  · exact fun _ _ heq _ => hbackslash heq

theorem chars_escape (h : escape c = some n) :
    chars ('\\' :: c :: rest) = (chars rest).map fun r => (n :: r.1, r.2) := by
  have hu : c ≠ 'u' := by
    rintro rfl
    cases h
  rw [chars, h]
  · cases chars rest with
    | none => rfl
    | some r => rfl
  · exact fun _ _ _ _ _ heq _ => hu heq

theorem chars_unicode {a b c d : Char} (h : hex4 a b c d = some n) :
    chars ('\\' :: 'u' :: a :: b :: c :: d :: rest) = (chars rest).map fun r => (n :: r.1, r.2) := by
  rw [chars, h]
  cases chars rest with
  | none => rfl
  | some r => rfl

theorem chars_append (h : Chars u t) (rest : List Char) : chars (t ++ '"' :: rest) = some (u, rest) := by
  induction h with
  | nil => rfl
  | plain hc _ ih => rw [List.cons_append, chars_plain hc, ih, Option.map_some]
  | escape hn _ ih => rw [List.cons_append, List.cons_append, chars_escape hn, ih, Option.map_some]
  | unicode hn _ ih =>
    simp only [List.cons_append]
    rw [chars_unicode hn, ih, Option.map_some]

theorem chars_sound (h : chars s = some (u, rest)) : ∃ t, s = t ++ '"' :: rest ∧ Chars u t := by
  induction s using chars.induct generalizing u with
  | case1 => cases h
  | case2 rest' =>
    cases h
    exact ⟨[], rfl, .nil⟩
  | case3 a b c d rest' ih =>
    cases hn : hex4 a b c d with
    | none =>
      rw [chars, hn] at h
      cases h
    | some n =>
      rw [chars_unicode hn] at h
      obtain ⟨⟨u', rest''⟩, hrest, heq⟩ := Option.map_eq_some_iff.mp h
      cases heq
      obtain ⟨t, rfl, ht⟩ := ih hrest
      exact ⟨_, rfl, .unicode hn ht⟩
  | case4 c rest' hne ih =>
    cases hn : escape c with
    | none =>
      rw [chars, hn] at h
      · cases h
      · exact hne
    | some n =>
      rw [chars_escape hn] at h
      obtain ⟨⟨u', rest''⟩, hrest, heq⟩ := Option.map_eq_some_iff.mp h
      cases heq
      obtain ⟨t, rfl, ht⟩ := ih hrest
      exact ⟨_, rfl, .escape hn ht⟩
  | case5 c rest' _ _ _ hplain ih =>
    rw [chars_plain hplain] at h
    obtain ⟨⟨u', rest''⟩, hrest, heq⟩ := Option.map_eq_some_iff.mp h
    cases heq
    obtain ⟨t, rfl, ht⟩ := ih hrest
    exact ⟨_, rfl, .plain hplain ht⟩
  | case6 c rest' hquote hunicode hescape hplain =>
    rw [chars, if_neg hplain] at h
    · cases h
    · exact hquote
    · exact hunicode
    · exact hescape

end Chars

/-! ### Numbers -/

section Number
variable {s t rest : List Char}

/-- A text that does not continue a number. -/
def Ends (s : List Char) : Prop := ∀ c ∈ s.head?, isNumberChar c = false

theorem isNumberChar_of_isDigit {c : Char} (h : c.isDigit = true) : isNumberChar c = true := by
  rw [isNumberChar, h, Bool.true_or]

theorem isNumberChar_of_isDigits (h : isDigits s = true) : ∀ c ∈ s, isNumberChar c = true := by
  rw [isDigits, Bool.and_eq_true, List.all_eq_true] at h
  exact fun c hc => isNumberChar_of_isDigit (h.2 c hc)

/-- Digits may stand in front. -/
theorem isNumberChar_of_dropWhile (h : ∀ c ∈ s.dropWhile Char.isDigit, isNumberChar c = true) :
    ∀ c ∈ s, isNumberChar c = true := by
  intro c hc
  rw [← List.takeWhile_append_dropWhile (p := Char.isDigit) (l := s)] at hc
  rcases List.mem_append.mp hc with hc | hc
  · exact isNumberChar_of_isDigit (List.mem_takeWhile_imp hc)
  · exact h c hc

theorem isNumberChar_of_isExponent (h : isExponent s = true) : ∀ c ∈ s, isNumberChar c = true := by
  have hmark {e : Char} (he : (e = 'e' || e = 'E') = true) : isNumberChar e = true := by
    rcases Bool.or_eq_true_iff.mp he with he | he
    · rw [of_decide_eq_true he]
      rfl
    · rw [of_decide_eq_true he]
      rfl
  unfold isExponent at h
  split at h
  · exact fun c hc => absurd hc List.not_mem_nil
  · rw [Bool.and_eq_true] at h
    exact List.forall_mem_cons.mpr ⟨hmark h.1, List.forall_mem_cons.mpr ⟨rfl, isNumberChar_of_isDigits h.2⟩⟩
  · rw [Bool.and_eq_true] at h
    exact List.forall_mem_cons.mpr ⟨hmark h.1, List.forall_mem_cons.mpr ⟨rfl, isNumberChar_of_isDigits h.2⟩⟩
  · rw [Bool.and_eq_true] at h
    exact List.forall_mem_cons.mpr ⟨hmark h.1, isNumberChar_of_isDigits h.2⟩

theorem isNumberChar_of_isFraction (h : isFraction s = true) : ∀ c ∈ s, isNumberChar c = true := by
  unfold isFraction at h
  split at h
  · rw [Bool.and_eq_true] at h
    exact List.forall_mem_cons.mpr ⟨rfl, isNumberChar_of_dropWhile (isNumberChar_of_isExponent h.2)⟩
  · exact isNumberChar_of_isExponent h

theorem isNumberChar_of_isUnsigned (h : isUnsigned s = true) : ∀ c ∈ s, isNumberChar c = true := by
  unfold isUnsigned at h
  split at h
  · cases h
  · exact List.forall_mem_cons.mpr ⟨rfl, isNumberChar_of_isFraction h⟩
  · rw [Bool.and_eq_true] at h
    refine List.forall_mem_cons.mpr ⟨isNumberChar_of_isDigit h.1, ?_⟩
    exact isNumberChar_of_dropWhile (isNumberChar_of_isFraction h.2)

theorem isNumberChar_of_isNumber (h : isNumber s = true) : ∀ c ∈ s, isNumberChar c = true := by
  unfold isNumber at h
  split at h
  · exact List.forall_mem_cons.mpr ⟨rfl, isNumberChar_of_isUnsigned h⟩
  · exact isNumberChar_of_isUnsigned h

theorem number_append (h : isNumber t = true) (hrest : Ends rest) : number (t ++ rest) = some (num ⟨t, h⟩, rest) := by
  have hchars := isNumberChar_of_isNumber h
  have hnil : rest.takeWhile isNumberChar = [] ∧ rest.dropWhile isNumberChar = rest := by
    cases rest with
    | nil => exact ⟨rfl, rfl⟩
    | cons c rest =>
      have hc : isNumberChar c = false := hrest c rfl
      constructor
      · rw [List.takeWhile_cons_of_neg (by simp [hc])]
      · rw [List.dropWhile_cons_of_neg (by simp [hc])]
  have htake : (t ++ rest).takeWhile isNumberChar = t := by
    rw [List.takeWhile_append_of_pos hchars, hnil.1, List.append_nil]
  have hdrop : (t ++ rest).dropWhile isNumberChar = rest := by
    rw [List.dropWhile_append_of_pos hchars, hnil.2]
  simp only [number, htake, hdrop, h, dif_pos]

theorem number_sound {v : Json} (h : number s = some (v, rest)) : ∃ literal, v = num literal ∧ s = literal ++ rest := by
  rw [number] at h
  split at h
  · cases h
    exact ⟨_, rfl, List.takeWhile_append_dropWhile.symm⟩
  · cases h

end Number

/-! ### Lists of items -/

theorem isNumberChar_of_isSpace {c : Char} (h : isSpace c = true) : isNumberChar c = false := by
  simp only [isSpace, Bool.or_eq_true, decide_eq_true_eq] at h
  rcases h with ((rfl | rfl) | rfl) | rfl <;> rfl

/-- White space, and then something that is no number, do not continue a number. -/
theorem ends_append {w s : List Char} (hw : Space w) (hs : Ends s) : Ends (w ++ s) := by
  cases w with
  | nil => exact hs
  | cons c w =>
    intro c' hc'
    cases hc'
    exact isNumberChar_of_isSpace (hw c (.head _))

section Items
variable {α : Type} {P Q : α → List Char → Prop} {p : List Char → Option (α × List Char)} {close : Char} {a : α}
  {as : List α} {s s' t rest : List Char} {n : Nat}

/-- Items begin with neither white space nor the bracket that ends the list. -/
def Opens (close : Char) (s : List Char) : Prop := ∃ c t, s = c :: t ∧ isSpace c = false ∧ c ≠ close

theorem Opens.starts (h : Opens close s) (t : List Char) : Starts (s ++ t) := by
  obtain ⟨c, s, rfl, hc, -⟩ := h
  intro c' hc'
  cases hc'
  exact hc

theorem Items.mono (h : Items P as t) (hmono : ∀ a s, s.length ≤ t.length → P a s → Q a s) : Items Q as t := by
  induction h with
  | nil hw => exact .nil hw
  | @one w w' s a hw ha hw' =>
    refine .one hw (hmono a s ?_ ha) hw'
    simp only [List.length_append]
    omega
  | @cons w w' s t a b as hw ha hw' _ ih =>
    refine .cons hw (hmono a s ?_ ha) hw' (ih fun a' s' hle => hmono a' s' ?_)
    · simp only [List.length_append]
      omega
    · simp only [List.length_append, List.length_cons]
      omega

theorem Items.length_le (h : Items P as t) (hopens : ∀ a s, P a s → Opens close s) : as.length ≤ t.length := by
  induction h with
  | nil => exact Nat.zero_le _
  | one _ ha _ =>
    obtain ⟨c, s, rfl, -⟩ := hopens _ _ ha
    simp only [List.length_append, List.length_cons, List.length_nil]
    omega
  | cons _ _ _ _ ih =>
    simp only [List.length_append, List.length_cons] at ih ⊢
    omega

theorem Opens.append (h : Opens close s) (t : List Char) : Opens close (s ++ t) := by
  obtain ⟨c, s, rfl, hc, hne⟩ := h
  exact ⟨c, s ++ t, rfl, hc, hne⟩

theorem Items.exists_opens (h : Items P (a :: as) t) (hopens : ∀ a s, P a s → Opens close s) :
    ∃ w s, t = w ++ s ∧ Space w ∧ Opens close s := by
  cases h with
  | one hw ha _ => exact ⟨_, _, rfl, hw, (hopens _ _ ha).append _⟩
  | cons hw ha _ _ => exact ⟨_, _, rfl, hw, (hopens _ _ ha).append _⟩

theorem items_last (hp : p (skip s) = some (a, s')) (hs : skip s' = close :: rest) (hclose : close ≠ ',') :
    items p close (n + 1) s = some ([a], rest) := by
  rw [items, hp]
  dsimp only [Option.bind_eq_bind, Option.bind_some]
  rw [hs]
  dsimp only
  rw [if_neg hclose, if_pos rfl]

theorem items_more (hp : p (skip s) = some (a, s')) (hs : skip s' = ',' :: t) :
    items p close (n + 1) s = (items p close n t).map fun r => (a :: r.1, r.2) := by
  rw [items, hp]
  dsimp only [Option.bind_eq_bind, Option.bind_some]
  rw [hs]
  dsimp only
  rw [if_pos rfl]
  cases items p close n t with
  | none => rfl
  | some r => rfl

/-- The brackets that end a list are neither commas nor white space, nor do they continue a number. -/
theorem close_cases (h : close = ']' ∨ close = '}') (rest : List Char) :
    close ≠ ',' ∧ Starts (close :: rest) ∧ Ends (close :: rest) := by
  rcases h with rfl | rfl
  · exact ⟨by decide, fun c hc => by cases hc; rfl, fun c hc => by cases hc; rfl⟩
  · exact ⟨by decide, fun c hc => by cases hc; rfl, fun c hc => by cases hc; rfl⟩

theorem starts_comma (s : List Char) : Starts (',' :: s) := fun c hc => by
  cases hc
  rfl

theorem ends_comma (s : List Char) : Ends (',' :: s) := fun c hc => by
  cases hc
  rfl

theorem items_append (hclose : close = ']' ∨ close = '}') (hopens : ∀ a s, P a s → Opens close s)
    (hp : ∀ a s rest, P a s → Ends rest → p (s ++ rest) = some (a, rest)) (h : Items P as t) (hne : as ≠ [])
    (hn : as.length ≤ n) (rest : List Char) : items p close n (t ++ close :: rest) = some (as, rest) := by
  obtain ⟨hcomma, hstarts, hends⟩ := close_cases hclose rest
  induction h generalizing n with
  | nil => exact absurd rfl hne
  | one hw ha hw' =>
    cases n with
    | zero => cases hn
    | succ n =>
      simp only [List.append_assoc]
      refine items_last ?_ (skip_append hw' hstarts) hcomma
      rw [skip_append hw ((hopens _ _ ha).starts _)]
      exact hp _ _ _ ha (ends_append hw' hends)
  | @cons w w' s t a b as hw ha hw' _ ih =>
    cases n with
    | zero => cases hn
    | succ n =>
      simp only [List.append_assoc, List.cons_append]
      have hfirst : p (skip (w ++ (s ++ (w' ++ ',' :: (t ++ close :: rest))))) =
          some (a, w' ++ ',' :: (t ++ close :: rest)) := by
        rw [skip_append hw ((hopens _ _ ha).starts _)]
        exact hp _ _ _ ha (ends_append hw' (ends_comma _))
      rw [items_more hfirst (skip_append hw' (starts_comma _)), ih (List.cons_ne_nil b as) (Nat.le_of_succ_le_succ hn)]
      rfl

theorem bracketed_append (hclose : close = ']' ∨ close = '}') (hopens : ∀ a s, P a s → Opens close s)
    (hp : ∀ a s rest, P a s → Ends rest → p (s ++ rest) = some (a, rest)) (h : Items P as t) (rest : List Char) :
    bracketed p close (t ++ close :: rest) = some (as, rest) := by
  cases as with
  | nil =>
    cases h with
    | nil hw =>
      rw [bracketed, skip_append hw (close_cases hclose rest).2.1]
      exact if_pos rfl
  | cons a as =>
    have hlength : (a :: as).length ≤ (t ++ close :: rest).length := by
      have := h.length_le hopens
      rw [List.length_append]
      omega
    have hread := items_append hclose hopens hp h (List.cons_ne_nil a as) hlength rest
    obtain ⟨w, s, rfl, hw, hs⟩ := h.exists_opens hopens
    have hskip : skip (w ++ s ++ close :: rest) = s ++ close :: rest := by
      rw [List.append_assoc, skip_append hw (hs.starts _)]
    obtain ⟨c, s, rfl, -, hne⟩ := hs
    rw [bracketed, hskip]
    exact (if_neg hne).trans hread

theorem items_sound (hp : ∀ s a rest, p s = some (a, rest) → ∃ t, s = t ++ rest ∧ P a t)
    (h : items p close n s = some (as, rest)) : ∃ t, s = t ++ close :: rest ∧ Items P as t ∧ as ≠ [] := by
  induction n generalizing s as with
  | zero => cases h
  | succ n ih =>
    rw [items] at h
    obtain ⟨w, hw, hspace⟩ := exists_skip s
    obtain ⟨⟨a, s'⟩, ha, h⟩ := Option.bind_eq_some_iff.mp h
    obtain ⟨t, ht, hP⟩ := hp _ _ _ ha
    obtain ⟨w', hw', hspace'⟩ := exists_skip s'
    dsimp only at h
    split at h
    · cases h
    · rename_i c rest' hskip
      rw [hskip] at hw'
      split at h
      · rename_i hc
        obtain ⟨⟨as', rest''⟩, has, heq⟩ := Option.bind_eq_some_iff.mp h
        cases heq
        obtain ⟨t', rfl, hitems, hne⟩ := ih has
        obtain ⟨b, bs, rfl⟩ := List.exists_cons_of_ne_nil hne
        refine ⟨_, ?_, .cons hspace hP hspace' hitems, List.cons_ne_nil _ _⟩
        rw [hw, ht, hw', hc]
        simp only [List.append_assoc, List.cons_append]
      · split at h
        · rename_i hc
          cases h
          refine ⟨_, ?_, .one hspace hP hspace', List.cons_ne_nil _ _⟩
          rw [hw, ht, hw', hc]
          simp only [List.append_assoc]
        · cases h

theorem bracketed_sound (hp : ∀ s a rest, p s = some (a, rest) → ∃ t, s = t ++ rest ∧ P a t)
    (h : bracketed p close s = some (as, rest)) : ∃ t, s = t ++ close :: rest ∧ Items P as t := by
  rw [bracketed] at h
  obtain ⟨w, hw, hspace⟩ := exists_skip s
  split at h
  · cases h
  · rename_i c rest' hskip
    split at h
    · rename_i hc
      cases h
      exact ⟨w, by rw [← hc, ← hskip]; exact hw, .nil hspace⟩
    · obtain ⟨t, ht, hitems, -⟩ := items_sound hp h
      exact ⟨t, ht, hitems⟩

end Items

/-! ### Values -/

section Value
variable {P Q : Json → List Char → Prop} {p : List Char → Option (Json × List Char)} {m : Str × Json} {v : Json}
  {s t rest : List Char} {n : Nat}

theorem Member.mono (h : Member P m t) (hmono : ∀ v s, s.length ≤ t.length → P v s → Q v s) : Member Q m t := by
  cases h with
  | @mk key v k w w' s hk hw hw' hv =>
    refine .mk hk hw hw' (hmono v s ?_ hv)
    simp only [List.length_append, List.length_cons]
    omega

/-- A text is also one of any nesting that its length allows. -/
theorem Text.of_length_lt (h : Text n v s) {k : Nat} (hk : s.length < k) : Text k v s := by
  induction n generalizing v s k with
  | zero => exact absurd h id
  | succ n ih =>
    obtain ⟨k, rfl⟩ := Nat.exists_eq_succ_of_ne_zero (Nat.ne_of_gt (Nat.zero_lt_of_lt hk))
    cases v with
    | null => exact h
    | bool b =>
      cases b with
      | false => exact h
      | true => exact h
    | num => exact h
    | str => exact h
    | arr elements =>
      obtain ⟨t, rfl, hitems⟩ := h
      simp only [List.length_cons, List.length_append, List.length_nil] at hk
      exact ⟨t, rfl, hitems.mono fun v s hle hv => ih hv (by omega)⟩
    | obj members =>
      obtain ⟨t, rfl, hitems⟩ := h
      simp only [List.length_cons, List.length_append, List.length_nil] at hk
      refine ⟨t, rfl, hitems.mono fun m s hle hm => hm.mono fun v s' hle' hv => ih hv (by omega)⟩

theorem isNumber_opens (h : isNumber s = true) : ∃ c t, s = c :: t ∧ isNumberChar c = true := by
  cases s with
  | nil => cases h
  | cons c t => exact ⟨c, t, rfl, isNumberChar_of_isNumber h c (.head _)⟩

/-- How the text of a value begins -/
theorem Text.exists_cons (h : Text n v s) : ∃ c t, s = c :: t ∧ isSpace c = false ∧ c ≠ ']' ∧ c ≠ '}' := by
  cases n with
  | zero => exact absurd h id
  | succ n =>
    cases v with
    | null => exact ⟨_, _, h, by decide⟩
    | bool b =>
      cases b with
      | false => exact ⟨_, _, h, by decide⟩
      | true => exact ⟨_, _, h, by decide⟩
    | num literal =>
      obtain ⟨c, t, hs, hc⟩ := isNumber_opens literal.2
      refine ⟨c, t, h.trans hs, ?_, ?_, ?_⟩
      · rw [← Bool.not_eq_true]
        intro hspace
        cases hc.symm.trans (isNumberChar_of_isSpace hspace)
      · rintro rfl
        cases hc
      · rintro rfl
        cases hc
    | str =>
      obtain ⟨t, rfl, -⟩ := h
      exact ⟨_, _, rfl, by decide⟩
    | arr =>
      obtain ⟨t, rfl, -⟩ := h
      exact ⟨_, _, rfl, by decide⟩
    | obj =>
      obtain ⟨t, rfl, -⟩ := h
      exact ⟨_, _, rfl, by decide⟩

theorem Text.starts (h : Text n v s) (t : List Char) : Starts (s ++ t) := by
  obtain ⟨c, s, rfl, hc, -⟩ := h.exists_cons
  intro c' hc'
  cases hc'
  exact hc

theorem colon_append {w : List Char} (hw : Space w) (s : List Char) : colon (w ++ ':' :: s) = some s := by
  have hstarts : Starts (':' :: s) := fun c hc => by
    cases hc
    rfl
  rw [colon, skip_append hw hstarts]
  rfl

theorem colon_sound (h : colon s = some t) : ∃ w, s = w ++ ':' :: t ∧ Space w := by
  obtain ⟨w, hw, hspace⟩ := exists_skip s
  unfold colon at h
  split at h
  · rename_i hskip
    cases h
    exact ⟨w, hskip ▸ hw, hspace⟩
  · cases h

theorem member_append (hp : ∀ v s rest, P v s → Ends rest → p (s ++ rest) = some (v, rest))
    (hstarts : ∀ v s t, P v s → Starts (s ++ t)) (h : Member P m t) (hrest : Ends rest) :
    member p (t ++ rest) = some (m, rest) := by
  cases h with
  | @mk key v k w w' s hk hw hw' hv =>
    simp only [List.cons_append, List.append_assoc]
    rw [member, chars_append hk]
    dsimp only [Option.bind_eq_bind, Option.bind_some]
    rw [colon_append hw, Option.bind_some, skip_append hw' (hstarts _ _ _ hv), hp _ _ _ hv hrest]
    rfl

theorem member_sound (hp : ∀ s v rest, p s = some (v, rest) → ∃ t, s = t ++ rest ∧ P v t)
    (h : member p s = some (m, rest)) : ∃ t, s = t ++ rest ∧ Member P m t := by
  unfold member at h
  split at h
  · obtain ⟨⟨key, s'⟩, hkey, h⟩ := Option.bind_eq_some_iff.mp h
    obtain ⟨s'', hcolon, h⟩ := Option.bind_eq_some_iff.mp h
    obtain ⟨⟨v, rest'⟩, hv, heq⟩ := Option.bind_eq_some_iff.mp h
    cases heq
    obtain ⟨k, rfl, hk⟩ := chars_sound hkey
    obtain ⟨w, rfl, hspace⟩ := colon_sound hcolon
    obtain ⟨w', hw', hspace'⟩ := exists_skip s''
    obtain ⟨t, ht, hP⟩ := hp _ _ _ hv
    refine ⟨_, ?_, .mk hk hspace hspace' hP⟩
    rw [hw', ht]
    simp only [List.cons_append, List.append_assoc]
  · cases h

theorem value_number (h : isNumber t = true) (hrest : Ends rest) :
    value (n + 1) (t ++ rest) = some (num ⟨t, h⟩, rest) := by
  obtain ⟨c, t', rfl, hc⟩ := isNumber_opens h
  have hread := number_append h hrest
  rw [List.cons_append] at hread ⊢
  unfold value
  split
  all_goals first
    | exact hread
    | rename_i heq
      obtain ⟨rfl, -⟩ := List.cons_eq_cons.mp heq
      cases hc

/-- What the grammar allows is read. Only a number needs to be told where it ends. -/
theorem value_append (h : Text n v s) (rest : List Char) (hrest : (∃ literal, v = num literal) → Ends rest) :
    value n (s ++ rest) = some (v, rest) := by
  induction n generalizing v s rest with
  | zero => exact absurd h id
  | succ n ih =>
    cases v with
    | null =>
      cases h
      rfl
    | bool b =>
      cases b with
      | false =>
        cases h
        rfl
      | true =>
        cases h
        rfl
    | num literal =>
      cases h
      exact value_number literal.2 (hrest ⟨_, rfl⟩)
    | str u =>
      obtain ⟨t, rfl, ht⟩ := h
      simp only [List.cons_append, List.append_assoc, List.nil_append]
      rw [value, chars_append ht, Option.map_some]
    | arr elements =>
      obtain ⟨t, rfl, hitems⟩ := h
      have hread : bracketed (value n) ']' (t ++ ']' :: rest) = some (elements, rest) := by
        refine bracketed_append (.inl rfl) (fun v s hv => ?_) (fun v s rest hv hrest => ih hv rest fun _ => hrest) hitems rest
        obtain ⟨c, s, rfl, hc, hbracket, -⟩ := hv.exists_cons
        exact ⟨c, s, rfl, hc, hbracket⟩
      simp only [List.cons_append, List.append_assoc, List.nil_append]
      rw [value, hread, Option.map_some]
    | obj members =>
      obtain ⟨t, rfl, hitems⟩ := h
      have hmember : ∀ m s rest, Member (Text n) m s → Ends rest →
          member (value n) (s ++ rest) = some (m, rest) := fun m s rest hm hrest =>
        member_append (fun v s rest hv hrest => ih hv rest fun _ => hrest) (fun v s t hv => hv.starts t) hm hrest
      have hread : bracketed (member (value n)) '}' (t ++ '}' :: rest) = some (members, rest) := by
        refine bracketed_append (.inr rfl) (fun m s hm => ?_) hmember hitems rest
        cases hm with
        | mk => exact ⟨_, _, rfl, rfl, by decide⟩
      simp only [List.cons_append, List.append_assoc, List.nil_append]
      rw [value, hread, Option.map_some]

theorem value_sound (h : value n s = some (v, rest)) : ∃ t, s = t ++ rest ∧ Text n v t := by
  induction n generalizing v s rest with
  | zero => cases h
  | succ n ih =>
    unfold value at h
    split at h
    · cases h
      exact ⟨_, rfl, rfl⟩
    · cases h
      exact ⟨_, rfl, rfl⟩
    · cases h
      exact ⟨_, rfl, rfl⟩
    · obtain ⟨⟨u, rest'⟩, hread, heq⟩ := Option.map_eq_some_iff.mp h
      cases heq
      obtain ⟨t, rfl, ht⟩ := chars_sound hread
      exact ⟨'"' :: (t ++ ['"']), by simp, t, rfl, ht⟩
    · obtain ⟨⟨elements, rest'⟩, hread, heq⟩ := Option.map_eq_some_iff.mp h
      cases heq
      obtain ⟨t, rfl, ht⟩ := bracketed_sound (fun s v rest hv => ih hv) hread
      exact ⟨'[' :: (t ++ [']']), by simp, t, rfl, ht⟩
    · obtain ⟨⟨members, rest'⟩, hread, heq⟩ := Option.map_eq_some_iff.mp h
      cases heq
      obtain ⟨t, rfl, ht⟩ := bracketed_sound (fun s m rest hm => member_sound (fun s v rest hv => ih hv) hm) hread
      exact ⟨'{' :: (t ++ ['}']), by simp, t, rfl, ht⟩
    · obtain ⟨literal, rfl, rfl⟩ := number_sound h
      exact ⟨literal, rfl, rfl⟩

theorem text_of_value (h : value n s = some (v, [])) : Text n v s := by
  obtain ⟨t, rfl, ht⟩ := value_sound h
  rwa [List.append_nil]

end Value

/-! ### Whole texts -/

section Whole
variable {v : Json} {members : List (Str × Json)} {s t w q : List Char} {n : Nat}

theorem ends_nil : Ends [] := fun c hc => by cases hc

/-- The reader accepts exactly the texts of the grammar. -/
theorem loads_eq_some_iff : loads s = some v ↔ IsText v s := by
  constructor
  · intro h
    unfold loads at h
    split at h
    · cases h
    · rename_i v' rest hread
      obtain ⟨w, hw, hspace⟩ := exists_skip s
      obtain ⟨w', hw', hspace'⟩ := exists_skip rest
      split at h
      · rename_i hend
        cases h
        obtain ⟨t, ht, htext⟩ := value_sound hread
        rw [hend, List.append_nil] at hw'
        exact ⟨_, w, t, w', by rw [hw, ht, hw'], hspace, htext, hspace'⟩
      · cases h
  · rintro ⟨n, w, t, w', rfl, hw, htext, hw'⟩
    have hlength : t.length < (w ++ (t ++ w')).length + 1 := by
      simp only [List.length_append]
      omega
    have hends : Ends w' := by
      have h := ends_append hw' ends_nil
      rwa [List.append_nil] at h
    rw [loads, skip_append hw (htext.starts w'), value_append (htext.of_length_lt hlength) w' fun _ => hends]
    exact if_pos (skip_space hw')

theorem Text.exists_obj (h : Text n v ('{' :: s)) : ∃ members, v = obj members := by
  cases n with
  | zero => exact absurd h id
  | succ n =>
    cases v with
    | null => cases h
    | bool b =>
      cases b with
      | false => cases h
      | true => cases h
    | num literal =>
      obtain ⟨c, t, hs, hc⟩ := isNumber_opens literal.2
      cases h.trans hs
      cases hc
    | str u =>
      obtain ⟨t, heq, -⟩ := h
      cases heq
    | arr elements =>
      obtain ⟨t, heq, -⟩ := h
      cases heq
    | obj members => exact ⟨members, rfl⟩

theorem loads_obj (hw : Space w) (h : Text n (obj members) t) : loads (w ++ t) = some (obj members) :=
  loads_eq_some_iff.mpr ⟨n, w, t, [], by rw [List.append_nil], hw, h, fun _ hc => absurd hc List.not_mem_nil⟩

/-- The text of an object does not go on. -/
theorem Text.eq_of_append (h : Text n (obj members) t) (h' : Text n v s) (heq : s ++ q = t) : q = [] := by
  have hbrace : ∃ t', t = '{' :: t' := by
    cases n with
    | zero => exact absurd h id
    | succ n =>
      obtain ⟨t', rfl, -⟩ := h
      exact ⟨_, rfl⟩
  obtain ⟨t', rfl⟩ := hbrace
  obtain ⟨c, s', rfl, -⟩ := h'.exists_cons
  cases heq
  obtain ⟨members', rfl⟩ := h'.exists_obj
  have hnone : ¬∃ literal, obj members = num literal := by
    rintro ⟨_, heq⟩
    cases heq
  have hnone' : ¬∃ literal, obj members' = num literal := by
    rintro ⟨_, heq⟩
    cases heq
  have hread := value_append h [] fun hnum => absurd hnum hnone
  have hread' := value_append h' q fun hnum => absurd hnum hnone'
  rw [List.append_nil] at hread
  exact (Prod.mk.inj (Option.some.inj (hread'.symm.trans hread))).2

/-- Nothing in front of the end of an object is a text. -/
theorem loads_of_prefix (hw : Space w) (h : Text n (obj members) t) {p : List Char} (hpre : p <+: w ++ t)
    (hne : p ≠ w ++ t) : loads p = none := by
  rw [Option.eq_none_iff_forall_ne_some]
  intro v hread
  obtain ⟨q, hq⟩ := hpre
  obtain ⟨n', w₁, s, w₂, rfl, hw₁, hs, -⟩ := loads_eq_some_iff.mp hread
  have heq : s ++ (w₂ ++ q) = t := by
    have hskip := congrArg skip hq
    rw [List.append_assoc, List.append_assoc, skip_append hw₁ (hs.starts _)] at hskip
    have hstarts := h.starts []
    rw [List.append_nil] at hstarts
    rw [hskip, skip_append hw hstarts]
  have hlength : s.length < t.length + 1 := by
    rw [← heq, List.length_append]
    omega
  have hnil := (h.of_length_lt (Nat.lt_succ_self _)).eq_of_append (hs.of_length_lt hlength) heq
  rw [(List.append_eq_nil_iff.mp hnil).2, List.append_nil] at hq
  exact hne hq

theorem loads_space (hw : Space w) : loads w = none := by
  rw [loads, skip_space hw]
  rfl

end Whole

/-! ### The writer -/

theorem newline_notMem_dumpsUnit (n : Nat) : '\n' ∉ dumpsUnit n := by
  unfold dumpsUnit
  split
  · decide
  · decide
  · decide
  · decide
  · decide
  · decide
  · decide
  · split_ifs with h
    · intro hmem
      have hprintable : ∀ n < 0x7F, 0x20 ≤ n → '\n' ≠ Char.ofNat n := by decide
      exact hprintable _ h.2 h.1 (List.mem_singleton.mp hmem)
    · intro hmem
      rcases List.mem_append.mp hmem with hmem | hmem
      · exact absurd hmem (by decide)
      · rw [List.leftpad] at hmem
        rcases List.mem_append.mp hmem with hmem | hmem
        · cases (List.mem_replicate.mp hmem).2
        · exact Numeral.notMem_hex rfl _ hmem

theorem newline_notMem_dumpsStr (u : Str) : '\n' ∉ dumpsStr u := by
  simp [dumpsStr, newline_notMem_dumpsUnit]

mutual

/-- What is written is one line. -/
theorem newline_notMem_dumps : ∀ v : Json, '\n' ∉ dumps v
  | null => by decide
  | bool true => by decide
  | bool false => by decide
  | num literal => fun h => by cases isNumberChar_of_isNumber literal.2 _ h
  | str u => newline_notMem_dumpsStr u
  | arr elements => by simp [dumps, newline_notMem_dumpsElements elements]
  | obj members => by simp [dumps, newline_notMem_dumpsMembers members]

theorem newline_notMem_dumpsElements : ∀ vs : List Json, '\n' ∉ dumpsElements vs
  | [] => List.not_mem_nil
  | [v] => newline_notMem_dumps v
  | v :: w :: vs => by
    simp [dumpsElements, newline_notMem_dumps v, newline_notMem_dumpsElements (w :: vs)]

theorem newline_notMem_dumpsMembers : ∀ ms : List (Str × Json), '\n' ∉ dumpsMembers ms
  | [] => List.not_mem_nil
  | [(key, v)] => by simp [dumpsMembers, newline_notMem_dumpsStr key, newline_notMem_dumps v]
  | (key, v) :: m :: ms => by
    simp [dumpsMembers, newline_notMem_dumpsStr key, newline_notMem_dumps v, newline_notMem_dumpsMembers (m :: ms)]

end

end Json
