import Avatar.Theorems.MiRoundTrip

/-! # Empty tuples

The parser does not read the brace that ends an empty tuple. The brace then ends the tuple around it, so that everything
behind the empty tuple is read one level further out, and what is behind the outermost tuple is not read at all. -/

namespace Avatar

/-- A level of results around an empty tuple: the results in front of it, the name under which it or a tuple around it is,
    and the results behind it -/
structure MiLevel where
  before : List (List Char × MiTerm)
  name : List Char
  after : List (List Char × MiTerm)

namespace MiLevel

def Readable (f : MiLevel) : Prop :=
  MiTerm.ReadableResults f.before ∧ MiTerm.PlainName f.name ∧ MiTerm.ReadableResults f.after

/-- The results, from the outermost level to the empty tuple -/
def plug : List MiLevel → List (List Char × MiTerm)
  | [] => []
  | f :: fs => f.before ++ (f.name, .tuple (plug fs)) :: f.after

/-- The results behind a tuple, where the next level is the one in it -/
def behind : List MiLevel → List (List Char × MiTerm)
  | [] => []
  | f :: _ => f.after

/-- Every level has the results that are behind the empty tuple one level further in. -/
def shift : List MiLevel → List (List Char × MiTerm)
  | [] => []
  | f :: fs => f.before ++ (f.name, .tuple (shift fs)) :: behind fs

/-- The text of a level up to the brace that opens the next tuple -/
def lead (f : MiLevel) : List Char := MiTerm.printResults f.before ++ ',' :: (f.name ++ ['=', '{'])

/-- The text that is read in a level, and the comma in front of it -/
def read (f : MiLevel) : List MiLevel → List Char
  | [] => lead f
  | g :: gs => lead f ++ ((read g gs).tail ++ '}' :: MiTerm.printResults g.after)

end MiLevel

namespace MiParser
open MiLevel

theorem printResults_append (rs rs' : List (List Char × MiTerm)) :
    MiTerm.printResults (rs ++ rs') = MiTerm.printResults rs ++ MiTerm.printResults rs' := by
  induction rs with
  | nil => rfl
  | cons r rs ih =>
    rw [List.cons_append, MiTerm.printResults, MiTerm.printResults, ih, List.cons_append, List.append_assoc,
      List.cons_append, List.append_assoc]

theorem assignAll_append (rs rs' : List (List Char × MiTerm)) (dict : List (String × MiValue)) :
    MiTerm.assignAll (rs ++ rs') dict = MiTerm.assignAll rs' (MiTerm.assignAll rs dict) := by
  induction rs generalizing dict with
  | nil => rw [List.nil_append, MiTerm.assignAll]
  | cons r rs ih => rw [List.cons_append, MiTerm.assignAll, MiTerm.assignAll, ih]

theorem lead_eq (f : MiLevel) : lead f = ',' :: (lead f).tail := by
  rw [lead]
  by_cases h : f.before = []
  · rw [h]
    rfl
  · rw [printResults_cons h]
    rfl

theorem read_eq (f : MiLevel) (fs : List MiLevel) : MiLevel.read f fs = ',' :: (MiLevel.read f fs).tail := by
  cases fs with
  | nil => exact lead_eq f
  | cons g gs =>
    rw [MiLevel.read, lead_eq]
    rfl

/-- What is read in a level, and the brace behind which nothing is read any more -/
theorem printResults_plug (f : MiLevel) (fs : List MiLevel) :
    MiTerm.printResults (plug (f :: fs)) = MiLevel.read f fs ++ '}' :: MiTerm.printResults f.after := by
  induction fs generalizing f with
  | nil =>
    rw [plug, plug, printResults_append, MiTerm.printResults, MiLevel.read, lead]
    simp [MiTerm.print, MiTerm.printResults]
  | cons g gs ih =>
    rw [plug, printResults_append, MiTerm.printResults, MiTerm.print, ih, read_eq g gs, MiLevel.read, lead]
    simp

theorem opens_read {f : MiLevel} (h : f.Readable) (fs : List MiLevel) : Opens (MiLevel.read f fs).tail := by
  have hlead : Opens (lead f).tail := by
    rw [lead]
    by_cases hne : f.before = []
    · rw [hne]
      exact opens_entry h.2.1 ['{']
    · rw [printResults_cons hne]
      exact (opens_results hne h.1).append _
  cases fs with
  | nil => exact hlead
  | cons g gs =>
    rw [MiLevel.read, lead_eq]
    exact hlead.append _

/-- The results in front of a text that goes on with another result -/
theorem resultEntries_takes_before {rs : List (List Char × MiTerm)} {more rest : List Char} {n : Nat}
    {results : List (String × MiValue)} (fuel : Nat) (dict : List (String × MiValue)) (hread : MiTerm.ReadableResults rs) (hne : more ≠ [])
    (hfuel : 3 * (MiTerm.printResults rs).length + n ≤ fuel)
    (h : ∀ fuel, n ≤ fuel → Takes (resultEntries fuel (MiTerm.assignAll rs dict)) more results rest) :
    Takes (resultEntries fuel dict) (MiTerm.printResults rs ++ ',' :: more).tail results rest := by
  induction rs generalizing fuel dict with
  | nil => exact h fuel (by rwa [MiTerm.printResults, List.length_nil, Nat.mul_zero, Nat.zero_add] at hfuel)
  | cons r rs ih =>
    obtain ⟨name, t⟩ := r
    rw [MiTerm.ReadableResults] at hread
    rw [MiTerm.printResults, List.length_cons, List.length_append, List.length_cons, List.length_append] at hfuel
    obtain ⟨fuel, rfl⟩ := Nat.exists_eq_add_one_of_ne_zero (show fuel ≠ 0 by omega)
    have hmore := ih fuel (assign (String.ofList name) t.value dict) hread.2.2 (by omega) h
    have htext : (MiTerm.printResults ((name, t) :: rs) ++ ',' :: more).tail =
        name ++ '=' :: (t.print ++ ',' :: (MiTerm.printResults rs ++ ',' :: more).tail) := by
      have hcomma : ∀ rs, MiTerm.printResults rs ++ ',' :: more = ',' :: (MiTerm.printResults rs ++ ',' :: more).tail := by
        intro rs
        cases rs with
        | nil => rfl
        | cons r rs => rw [printResults_cons (List.cons_ne_nil r rs)]; rfl
      rw [← hcomma, MiTerm.printResults]
      simp
    have hne' : (MiTerm.printResults rs ++ ',' :: more).tail ≠ [] := by
      cases rs with
      | nil => exact hne
      | cons r rs =>
        obtain ⟨name', t'⟩ := r
        simp [MiTerm.printResults]
    rw [htext]
    refine resultEntries_takes_more hread.1.1 (by omega) hne' ?_ hmore
    exact print_takes t hread.2.1 (by omega) fun _ => List.cons_ne_nil _ _

/-- The empty tuple, without the brace that ends it -/
theorem parseValue_takes_empty {fuel : Nat} (rest : List Char) :
    Takes (parseValue (fuel + 2)) ['{'] (MiTerm.tuple []).value ('}' :: rest) := by
  refine parseValue_takes_tuple ?_
  rw [parseTuple]
  refine .last expectChar_takes (.look (t := []) peek_takes ?_)
  exact .pure _ _

/-- A tuple and the results behind it, up to the brace of the level -/
theorem resultEntries_takes_tuple {name text rest : List Char} (rs after : List (List Char × MiTerm)) {fuel : Nat}
    {dict : List (String × MiValue)} (hname : MiTerm.PlainName name) (hafter : MiTerm.ReadableResults after)
    (hfuel : 3 * (name.length + (MiTerm.printResults after).length) < fuel)
    (h : Takes (parseValue fuel) text (MiTerm.tuple rs).value (MiTerm.printResults after ++ '}' :: rest)) :
    Takes (resultEntries (fuel + 1) dict) (name ++ '=' :: (text ++ MiTerm.printResults after))
      (MiTerm.assignAll ((name, .tuple rs) :: after) dict) ('}' :: rest) := by
  rw [MiTerm.assignAll]
  by_cases hne : after = []
  · subst hne
    rw [MiTerm.printResults, List.append_nil]
    exact resultEntries_takes_last hname.1 (by omega) h (stops_cons (by decide) _)
  · obtain ⟨c, text', htext, -⟩ := opens_results hne hafter
    have hmore := printResults_takes after fuel (assign (String.ofList name) (MiTerm.tuple rs).value dict)
      ('}' :: rest) hne hafter (by rw [List.length_tail]; omega) (stops_cons (by decide) _)
      fun _ => List.cons_ne_nil _ _
    rw [printResults_cons hne] at h ⊢
    exact resultEntries_takes_more hname.1 (by omega) (by rw [htext]; exact List.cons_ne_nil _ _) h hmore

theorem resultEntries_takes_levels {f : MiLevel} {fs : List MiLevel} (hread : ∀ g ∈ f :: fs, g.Readable) {fuel : Nat}
    {dict : List (String × MiValue)} {rest : List Char} (hfuel : 3 * (MiLevel.read f fs).length + 1 ≤ fuel) :
    Takes (resultEntries fuel dict) (MiLevel.read f fs).tail (MiTerm.assignAll (shift (f :: fs)) dict)
      ('}' :: (MiTerm.printResults f.after ++ rest)) := by
  induction fs generalizing f fuel dict rest with
  | nil =>
    have hf := hread f (.head _)
    rw [MiLevel.read, lead, List.length_append, List.length_cons, List.length_append] at hfuel
    rw [MiLevel.read, lead, shift, shift, behind, assignAll_append]
    refine resultEntries_takes_before (n := 3 * (f.name.length + 1) + 2) _ _ hf.1 (by simp) ?_ fun fuel hn => ?_
    · simp only [List.length_cons, List.length_nil] at hfuel
      omega
    · obtain ⟨fuel, rfl⟩ := Nat.exists_eq_add_of_le' (show 3 ≤ fuel by omega)
      refine resultEntries_takes_tuple [] [] hf.2.1 trivial ?_ (parseValue_takes_empty _)
      rw [MiTerm.printResults, List.length_nil]
      omega
  | cons g gs ih =>
    have hf := hread f (.head _)
    have hg := hread g (.tail _ (.head _))
    have hlen : (MiLevel.read f (g :: gs)).length =
        (MiTerm.printResults f.before).length + f.name.length + (MiLevel.read g gs).length +
          (MiTerm.printResults g.after).length + 3 := by
      rw [MiLevel.read, lead, read_eq g gs]
      simp
      omega
    have htext : MiLevel.read f (g :: gs) =
        MiTerm.printResults f.before ++
          ',' :: (f.name ++ '=' :: ('{' :: ((MiLevel.read g gs).tail ++ ['}']) ++ MiTerm.printResults g.after)) := by
      rw [MiLevel.read, lead]
      simp
    rw [htext, shift, behind, assignAll_append]
    refine resultEntries_takes_before (n := fuel - 3 * (MiTerm.printResults f.before).length) _ _ hf.1 (by simp) (by omega)
      fun fuel' hn => ?_
    obtain ⟨n, rfl⟩ := Nat.exists_eq_add_of_le' (show 4 ≤ fuel' by omega)
    refine resultEntries_takes_tuple _ _ hf.2.1 hg.2.2 (by omega) (parseValue_takes_tuple (parseTuple_takes (opens_read hg gs) ?_))
    exact ih (fun g' hg' => hread g' (.tail _ hg')) (by omega)

/-- The results around an empty tuple are read as if everything behind it were one level further out. What is behind the
    outermost tuple is lost. -/
theorem parseResults_plug {f : MiLevel} {fs : List MiLevel} (hread : ∀ g ∈ f :: fs, g.Readable) :
    onStream parseResults (MiTerm.printResults (plug (f :: fs))) = .ok (MiTerm.assignAll (shift (f :: fs)) []) := by
  have htext : MiTerm.printResults (plug (f :: fs)) =
      ',' :: (MiLevel.read f fs).tail ++ '}' :: (MiTerm.printResults f.after ++ []) := by
    rw [printResults_plug, read_eq, List.append_nil]
    rfl
  have hlen := congrArg List.length htext
  rw [List.length_append, ← read_eq] at hlen
  rw [htext]
  refine (parseResults_takes_comma (opens_read (hread f (.head _)) fs) (resultEntries_takes_levels hread ?_)).onStream
  rw [← htext]
  omega

theorem newline_notMem_read {f : MiLevel} {fs : List MiLevel} (hread : ∀ g ∈ f :: fs, g.Readable) :
    '\n' ∉ MiLevel.read f fs := by
  induction fs generalizing f with
  | nil =>
    have hf := hread f (.head _)
    simp [MiLevel.read, lead, newline_notMem_printResults _ hf.1, hf.2.1.2.1]
  | cons g gs ih =>
    have hf := hread f (.head _)
    have hg := hread g (.tail _ (.head _))
    have hin := mt List.mem_of_mem_tail (ih fun g' hg' => hread g' (.tail _ hg'))
    simp [MiLevel.read, lead, newline_notMem_printResults _ hf.1, hf.2.1.2.1, hin, newline_notMem_printResults _ hg.2.2]

theorem groupResults_plug {f : MiLevel} {fs : List MiLevel} (hread : ∀ g ∈ f :: fs, g.Readable) :
    groupResults (resultsGroup (MiTerm.printResults (plug (f :: fs)))) =
      .ok (MiRecord.resultsValue (shift (f :: fs))) := by
  have hne : plug (f :: fs) ≠ [] := by simp [plug]
  have hshift : shift (f :: fs) ≠ [] := by simp [shift]
  have hnewline : '\n' ∉ MiTerm.printResults (plug (f :: fs)) := by
    simp [printResults_plug, newline_notMem_read hread, newline_notMem_printResults _ (hread f (.head _)).2.2]
  have hgroup : resultsGroup (MiTerm.printResults (plug (f :: fs))) = some (MiTerm.printResults (plug (f :: fs))) := by
    obtain ⟨c, text, htext, -⟩ := opens_read (hread f (.head _)) fs
    rw [printResults_cons hne] at hnewline ⊢
    refine resultsGroup_print ?_ fun h => hnewline (.tail _ h)
    rw [printResults_plug, read_eq, htext]
    exact List.cons_ne_nil _ _
  rw [hgroup, groupResults, parseResults_plug hread, MiRecord.resultsValue, List.isEmpty_eq_false_iff.mpr hshift]
  rfl

/-- A record with an empty tuple, however deep in other tuples, is parsed without an exception, and gives the results of
    another record: what is behind the empty tuple is one level further out, and what is behind the outermost tuple is
    lost. -/
theorem parse_empty_tuple (f : MiLevel) (fs : List MiLevel) (hread : ∀ g ∈ f :: fs, g.Readable) :
    (∀ token klass, parse (MiRecord.result token klass (plug (f :: fs))).print =
      .ok (MiRecord.result token klass (shift (f :: fs))).message) ∧
    ∀ type klass, klass ≠ [] → ',' ∉ klass →
      parse (MiRecord.async type klass (plug (f :: fs))).print =
        .ok (MiRecord.async type klass (shift (f :: fs))).message := by
  refine ⟨fun token klass => ?_, fun type klass hne hcomma => ?_⟩
  · rw [MiRecord.print, parse_result, groupResults_plug hread]
    rfl
  · rw [MiRecord.print, parse_async type hne hcomma (printResults_head _), groupResults_plug hread]
    rfl

/-- The member `b` of the tuple becomes a result of the record, and the result `c` is lost. -/
theorem parse_empty_tuple_member :
    parse "7^done,x=\x7ba=\x7b\x7d,b=\"1\"\x7d,c=\"2\"".toList =
      .ok (.result ⟨7, .done, some (.tuple [("x", .tuple [("a", .tuple [])]), ("b", .const ['1'])])⟩) := by
  refine (parse_empty_tuple ⟨[], ['x'], [(['c'], .const ['2'])]⟩ [⟨[], ['a'], [(['b'], .const ['1'])]⟩] ?_).1 7 .done
  rintro g hg
  simp only [List.mem_cons, List.not_mem_nil, or_false] at hg
  rcases hg with rfl | rfl <;>
    simp [MiLevel.Readable, MiTerm.ReadableResults, MiTerm.Readable, MiTerm.PlainName]

end MiParser

end Avatar
