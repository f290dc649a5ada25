import Avatar.Bintools.MiParser

/-! # Records of the machine interface, written and parsed

The grammar is the one that the parser's docstrings give. A term of it is written as gdb writes it, and the parser gives
its value back: a result list is a dictionary, in which the last of several results with one name counts. -/

namespace Avatar

/-- A value of the grammar -/
inductive MiTerm where
  | const (s : List Char)
  | tuple (results : List (List Char × MiTerm))
  | values (list : List MiTerm)
  | results (list : List (List Char × MiTerm))

namespace MiTerm

def escape : Char → List Char
  | '\n' => ['\\', 'n']
  | '\\' => ['\\', '\\']
  | '"' => ['\\', '"']
  | '\t' => ['\\', 't']
  | c => [c]

/-- The characters of a string, with the quote that ends it -/
def printChars (s : List Char) : List Char := s.flatMap escape ++ ['"']

mutual

def print : MiTerm → List Char
  | const s => '"' :: printChars s
  | tuple rs => '{' :: ((printResults rs).tail ++ ['}'])
  | values vs => '[' :: ((printValues vs).tail ++ [']'])
  | results rs => '[' :: ((printResults rs).tail ++ [']'])

/-- Every value, behind a comma -/
def printValues : List MiTerm → List Char
  | [] => []
  | t :: ts => ',' :: (print t ++ printValues ts)

/-- Every result, behind a comma -/
def printResults : List (List Char × MiTerm) → List Char
  | [] => []
  | (name, t) :: rs => ',' :: (name ++ '=' :: (print t ++ printResults rs))

end

mutual

def value : MiTerm → MiValue
  | const s => .const s
  | tuple rs => .tuple (assignAll rs [])
  | values vs => .list (valueList vs)
  | results rs => .tuple (assignAll rs [])

def valueList : List MiTerm → List MiValue
  | [] => []
  | t :: ts => value t :: valueList ts

/-- The dictionary after the results have been assigned one after the other -/
def assignAll : List (List Char × MiTerm) → List (String × MiValue) → List (String × MiValue)
  | [], dict => dict
  | (name, t) :: rs, dict => assignAll rs (MiParser.assign (String.ofList name) (value t) dict)

end

/-- A name that is not taken for anything else -/
def PlainName (name : List Char) : Prop := '=' ∉ name ∧ '\n' ∉ name ∧ ∀ c ∈ name.head?, c ∉ [',', '"', '{', '}', '[', ']']

mutual

/-- The names are plain, and neither a tuple nor a list of results is empty. -/
def Readable : MiTerm → Prop
  | const _ => True
  | tuple rs => rs ≠ [] ∧ ReadableResults rs
  | values vs => ReadableValues vs
  | results rs => rs ≠ [] ∧ ReadableResults rs

def ReadableValues : List MiTerm → Prop
  | [] => True
  | t :: ts => Readable t ∧ ReadableValues ts

def ReadableResults : List (List Char × MiTerm) → Prop
  | [] => True
  | (name, t) :: rs => PlainName name ∧ Readable t ∧ ReadableResults rs

end

end MiTerm

def MiTerm.isEmptyList : MiTerm → Bool
  | .values [] => true
  | _ => false

/-- An empty list ends the results: then something has to follow, or the parser cannot leave the bracket behind. -/
def MiTerm.endsOpen : List (List Char × MiTerm) → Bool
  | [] => false
  | [(_, t)] => t.isEmptyList
  | _ :: r :: rs => endsOpen (r :: rs)

theorem MiTerm.eq_of_isEmptyList {t : MiTerm} (h : t.isEmptyList = true) : t = .values [] := by
  unfold isEmptyList at h
  split at h
  · rfl
  · cases h

/-- A line of the output -/
inductive MiRecord where
  | async (type : AsyncType) (klass : List Char) (results : List (List Char × MiTerm))
  | stream (type : StreamType) (string : List Char)
  | result (token : Nat) (klass : ResultClass) (results : List (List Char × MiTerm))

def AsyncType.mark : AsyncType → Char
  | exec => '*'
  | status => '+'
  | notify => '='

def StreamType.mark : StreamType → Char
  | console => '~'
  | target => '@'
  | errorLog => '&'

def ResultClass.word : ResultClass → List Char
  | done => ['d', 'o', 'n', 'e']
  | running => ['r', 'u', 'n', 'n', 'i', 'n', 'g']
  | connected => ['c', 'o', 'n', 'n', 'e', 'c', 't', 'e', 'd']
  | error => ['e', 'r', 'r', 'o', 'r']
  | exit => ['e', 'x', 'i', 't']

namespace MiRecord

def print : MiRecord → List Char
  | async type klass rs => type.mark :: (klass ++ MiTerm.printResults rs)
  | stream type string => type.mark :: '"' :: MiTerm.printChars string
  | result token klass rs => Numeral.dec token ++ '^' :: (klass.word ++ MiTerm.printResults rs)

/-- The dictionary of the results, if there are any -/
def resultsValue (rs : List (List Char × MiTerm)) : Option MiValue :=
  if rs.isEmpty then none else some (.tuple (MiTerm.assignAll rs []))

def message : MiRecord → MiMessage
  | async type klass rs => .async ⟨type, klass, resultsValue rs⟩
  | stream type string => .stream ⟨type, string⟩
  | result token klass rs => .result ⟨token, klass, resultsValue rs⟩

def Readable : MiRecord → Prop
  | async _ klass rs => klass ≠ [] ∧ ',' ∉ klass ∧ '\n' ∉ klass ∧ MiTerm.ReadableResults rs
  | stream _ _ => True
  | result _ _ rs => MiTerm.ReadableResults rs

/-- The record ends with an empty list. -/
def endsOpen : MiRecord → Bool
  | async _ _ rs => MiTerm.endsOpen rs
  | stream _ _ => false
  | result _ _ rs => MiTerm.endsOpen rs

end MiRecord

namespace MiParser
open ParseStream StateExcept

/-! ### What a parser takes off a stream -/

/-- A stream that has been read up to a place -/
def between (done rest : List Char) : ParseStream := ⟨done ++ rest, done.length⟩

/-- The parser reads exactly the text, in front of the rest, and returns the value. -/
def Takes {α : Type} (x : ParseM α) (text : List Char) (a : α) (rest : List Char) : Prop :=
  ∀ done, x (between done (text ++ rest)) = .ok a (between (done ++ text) rest)

section Takes
variable {α β : Type} {x : ParseM α} {f : α → ParseM β} {a : α} {b : β} {c : Char} {t u r done : List Char}

theorem Takes.pure (a : α) (r : List Char) : Takes (Pure.pure a) [] a r := by
  intro done
  rw [List.append_nil]
  rfl

theorem Takes.bind (hx : Takes x t a (u ++ r)) (hf : Takes (f a) u b r) :
    Takes (x >>= f) (t ++ u) b r := by
  intro done
  rw [List.append_assoc, bind_ok (hx done), hf (done ++ t), List.append_assoc]

/-- A parser that only looks ahead -/
theorem Takes.look (hx : Takes x [] a (t ++ r)) (hf : Takes (f a) t b r) : Takes (x >>= f) t b r :=
  Takes.bind hx hf

/-- The last of several parsers, when it only looks ahead -/
theorem Takes.last (hx : Takes x t a r) (hf : Takes (f a) [] b r) : Takes (x >>= f) t b r := by
  have h := Takes.bind (u := []) hx hf
  rwa [List.append_nil] at h

theorem read_between (done : List Char) (c : Char) (r : List Char) :
    read 1 (between done (c :: r)) = .ok [c] (between (done ++ [c]) r) := by
  show EStateM.Result.ok (((done ++ c :: r).drop done.length).take 1) _ = _
  rw [List.drop_left, between, between, List.append_assoc, List.length_append]
  rfl

theorem back_between (done : List Char) (c : Char) (r : List Char) :
    back 1 (between (done ++ [c]) r) = .ok () (between done (c :: r)) := by
  show seek _ _ = _
  have hpos : ((between (done ++ [c]) r).pos : Int) - (1 : Nat) = done.length := by
    rw [between, List.length_append, List.length_singleton, Nat.cast_add, Int.add_sub_cancel]
  have hlen : (done.length : Int) < (between (done ++ [c]) r).string.length := by
    rw [between, List.length_append, List.length_append, List.length_singleton]
    omega
  rw [hpos, seek, if_pos ⟨Int.natCast_nonneg _, hlen⟩, Int.toNat_natCast, between, between, List.append_assoc]
  rfl

theorem char_takes : Takes char [c] [c] r := fun done => read_between done c r

theorem peek_takes : Takes peek [] [c] (c :: r) := by
  intro done
  rw [List.append_nil]
  show (read 1 >>= fun x => back 1 >>= fun _ => Pure.pure x) _ = _
  rw [List.nil_append, bind_ok (read_between done c r), bind_ok (back_between done c r)]
  rfl

theorem checkLimit_takes (hrest : r ≠ []) : Takes checkLimit [] () r := by
  intro done
  have hlen : 0 < r.length := List.length_pos_iff.mpr hrest
  rw [List.append_nil]
  show (if _ then (throw _ : ParseM Unit) else Pure.pure ()) _ = _
  rw [if_neg]
  · rfl
  · simp only [List.nil_append, between, List.length_append]
    omega

theorem expectChar_takes : Takes (expectChar c) [c] () r := by
  intro done
  show (read 1 >>= fun x => if x ≠ [c] then _ else Pure.pure ()) _ = _
  rw [List.singleton_append, bind_ok (read_between done c r), if_neg (not_not.mpr rfl)]
  rfl

theorem skip_takes (hrest : r ≠ []) : Takes (skip 1) [c] () r := by
  intro done
  show seek _ _ = _
  have hlen : 0 < r.length := List.length_pos_iff.mpr hrest
  have hlt : ((between done ([c] ++ r)).pos : Int) + (1 : Nat) < (between done ([c] ++ r)).string.length := by
    simp only [between, List.length_append, List.length_singleton]
    omega
  rw [seek, if_pos ⟨by omega, hlt⟩, between, between, List.append_assoc, List.length_append]
  rfl

theorem nextChar_takes (hrest : r ≠ []) : Takes (nextChar c) [c] true r := by
  intro done
  have hlen : 0 < r.length := List.length_pos_iff.mpr hrest
  show (if _ then (Pure.pure false : ParseM Bool) else read 1 >>= fun x => if x ≠ [c] then _ else Pure.pure true) _ = _
  rw [if_neg, List.singleton_append, bind_ok (read_between done c r), if_neg (not_not.mpr rfl)]
  · rfl
  · simp only [between, List.length_append, List.length_singleton]
    omega

/-- Another character stays where it is. -/
theorem nextChar_misses (hrest : ∀ d ∈ r.head?, d ≠ c) : Takes (nextChar c) [] false r := by
  intro done
  rw [List.append_nil, List.nil_append]
  show (if _ then (Pure.pure false : ParseM Bool)
    else read 1 >>= fun x => if x ≠ [c] then back 1 >>= fun _ => Pure.pure false else Pure.pure true) _ = _
  split
  · rfl
  · next hlt =>
    cases r with
    | nil =>
      rw [between, List.append_nil] at hlt
      exact absurd (Nat.le_succ _) hlt
    | cons d r =>
      have hne : [d] ≠ [c] := fun h => hrest d rfl (List.cons.inj h).1
      rw [bind_ok (read_between done d r), if_pos hne, bind_ok (back_between done d r)]
      rfl

end Takes

/-! ### The loops over characters -/

theorem escape_cases (c : Char) :
    (∃ e, MiTerm.escape c = ['\\', e] ∧ escapeChars.lookup [e] = some c) ∨
      MiTerm.escape c = [c] ∧ c ≠ '\\' ∧ c ≠ '"' := by
  unfold MiTerm.escape
  split
  · exact .inl ⟨'n', rfl, rfl⟩
  · exact .inl ⟨'\\', rfl, rfl⟩
  · exact .inl ⟨'"', rfl, rfl⟩
  · exact .inl ⟨'t', rfl, rfl⟩
  · next hbackslash hquote _ => exact .inr ⟨rfl, hbackslash, hquote⟩

theorem cstringChars_takes {fuel : Nat} (s sb rest : List Char) (hfuel : s.length < fuel) :
    Takes (cstringChars fuel sb) (MiTerm.printChars s) (sb ++ s) rest := by
  induction s generalizing fuel sb with
  | nil =>
    obtain ⟨fuel, rfl⟩ := Nat.exists_eq_add_one_of_ne_zero (Nat.ne_zero_of_lt hfuel)
    rw [cstringChars, List.append_nil]
    refine .look (t := ['"']) (checkLimit_takes (List.cons_ne_nil _ _)) (.last char_takes ?_)
    exact .pure sb rest
  | cons c s ih =>
    obtain ⟨fuel, rfl⟩ := Nat.exists_eq_add_one_of_ne_zero (Nat.ne_zero_of_lt hfuel)
    have hfuel : s.length < fuel := Nat.lt_of_succ_lt_succ hfuel
    have hsb : sb ++ c :: s = sb ++ [c] ++ s := by rw [List.append_assoc]; rfl
    rw [cstringChars, hsb, MiTerm.printChars, List.flatMap_cons, List.append_assoc]
    rcases escape_cases c with ⟨e, hescape, hlookup⟩ | ⟨hescape, hbackslash, hquote⟩
    · rw [hescape]
      refine .look (t := '\\' :: e :: MiTerm.printChars s) (checkLimit_takes (List.cons_ne_nil _ _)) (.bind (t := ['\\']) char_takes ?_)
      rw [if_pos rfl]
      refine .bind (t := [e]) char_takes ?_
      rw [hlookup]
      exact ih _ hfuel
    · rw [hescape]
      refine .look (t := c :: MiTerm.printChars s) (checkLimit_takes (List.cons_ne_nil _ _)) (.bind (t := [c]) char_takes ?_)
      rw [if_neg fun h => hbackslash (List.cons.inj h).1, if_neg fun h => hquote (List.cons.inj h).1]
      exact ih _ hfuel

theorem variableChars_takes {fuel : Nat} (name sb rest : List Char) (hname : '=' ∉ name) (hfuel : name.length < fuel) :
    Takes (variableChars fuel sb) (name ++ ['=']) (sb ++ name) rest := by
  induction name generalizing fuel sb with
  | nil =>
    obtain ⟨fuel, rfl⟩ := Nat.exists_eq_add_one_of_ne_zero (Nat.ne_zero_of_lt hfuel)
    rw [variableChars, List.append_nil]
    refine .look (t := ['=']) (checkLimit_takes (List.cons_ne_nil _ _)) (.last char_takes ?_)
    exact .pure sb rest
  | cons c name ih =>
    obtain ⟨fuel, rfl⟩ := Nat.exists_eq_add_one_of_ne_zero (Nat.ne_zero_of_lt hfuel)
    obtain ⟨hc, hname⟩ := not_or.mp (mt List.mem_cons.mpr hname)
    have hsb : sb ++ c :: name = sb ++ [c] ++ name := by rw [List.append_assoc]; rfl
    rw [variableChars, hsb]
    refine .look (t := c :: (name ++ ['='])) (checkLimit_takes (List.cons_ne_nil _ _)) (.bind (t := [c]) char_takes ?_)
    rw [if_neg fun h => hc (List.cons.inj h).1.symm]
    exact ih _ hname (Nat.lt_of_succ_lt_succ hfuel)

/-! ### The values -/

/-- A text whose first character is neither a comma nor a quote nor a bracket -/
def Opens (text : List Char) : Prop := ∃ c rest, text = c :: rest ∧ c ∉ [',', '"', '{', '}', '[', ']']

theorem Opens.append {text : List Char} (h : Opens text) (rest : List Char) : Opens (text ++ rest) := by
  obtain ⟨c, text', rfl, hc⟩ := h
  exact ⟨c, text' ++ rest, rfl, hc⟩

theorem opens_entry {name : List Char} (h : MiTerm.PlainName name) (rest : List Char) : Opens (name ++ '=' :: rest) := by
  cases name with
  | nil => exact ⟨'=', rest, rfl, by decide⟩
  | cons c name => exact ⟨c, name ++ '=' :: rest, rfl, h.2.2 c rfl⟩

theorem opens_results {rs : List (List Char × MiTerm)} (hne : rs ≠ []) (h : MiTerm.ReadableResults rs) :
    Opens (MiTerm.printResults rs).tail := by
  obtain ⟨⟨name, t⟩, rs, rfl⟩ := List.exists_cons_of_ne_nil hne
  rw [MiTerm.ReadableResults] at h
  rw [MiTerm.printResults]
  exact opens_entry h.1 _

theorem printResults_cons {rs : List (List Char × MiTerm)} (hne : rs ≠ []) :
    MiTerm.printResults rs = ',' :: (MiTerm.printResults rs).tail := by
  obtain ⟨⟨name, t⟩, rs, rfl⟩ := List.exists_cons_of_ne_nil hne
  rw [MiTerm.printResults]
  rfl

/-- What is behind a loop does not continue it. -/
abbrev Stops (rest : List Char) : Prop := ∀ c ∈ rest.head?, c ≠ ','

section Rounds
variable {fuel : Nat} {rest : List Char}

theorem parseResults_takes {text : List Char} {results : List (String × MiValue)}
    (hopens : Opens text) (h : Takes (resultEntries fuel []) text results rest) :
    Takes (parseResults (fuel + 1)) text results rest := by
  rw [parseResults]
  obtain ⟨c, text', rfl, hc⟩ := hopens
  refine .look (nextChar_misses ?_) h
  rintro d hd rfl
  cases hd
  exact hc (.head _)

/-- A comma in front of the first result is passed over. -/
theorem parseResults_takes_comma {text : List Char} {results : List (String × MiValue)} (hopens : Opens text)
    (h : Takes (resultEntries fuel []) text results rest) :
    Takes (parseResults (fuel + 1)) (',' :: text) results rest := by
  rw [parseResults]
  obtain ⟨c, text', rfl, -⟩ := hopens
  exact .bind (t := [',']) (nextChar_takes (List.cons_ne_nil _ _)) h

theorem parseTuple_takes {text : List Char} {results : List (String × MiValue)} (hopens : Opens text)
    (h : Takes (resultEntries fuel []) text results ('}' :: rest)) :
    Takes (parseTuple (fuel + 2)) ('{' :: (text ++ ['}'])) (.tuple results) rest := by
  have hresults := parseResults_takes hopens h
  obtain ⟨c, text', rfl, hc⟩ := hopens
  have hne : [c] ≠ ['}'] := by
    rintro heq
    cases heq
    exact hc (by decide)
  rw [parseTuple]
  refine .bind (t := ['{']) expectChar_takes (.look (t := c :: (text' ++ ['}'])) peek_takes ?_)
  rw [if_neg hne]
  exact .bind (u := [_]) hresults (.last expectChar_takes (.pure _ _))

theorem parseList_takes_results {text : List Char} {results : List (String × MiValue)} (hopens : Opens text)
    (h : Takes (resultEntries fuel []) text results (']' :: rest)) :
    Takes (parseList (fuel + 2)) ('[' :: (text ++ [']'])) (.tuple results) rest := by
  have hresults := parseResults_takes hopens h
  obtain ⟨c, text', rfl, hc⟩ := hopens
  have hne : ∀ d ∈ [',', '"', '{', '}', '[', ']'], [c] ≠ [d] := by
    rintro d hd heq
    cases heq
    exact hc hd
  rw [parseList]
  refine .bind (t := ['[']) expectChar_takes (.look (t := c :: (text' ++ [']'])) peek_takes ?_)
  rw [if_neg (by simp [hne]), if_neg (hne _ (by decide))]
  exact .bind (u := [_]) hresults (.last expectChar_takes (.pure _ _))

theorem resultEntries_takes_last {name text : List Char} {value : MiValue} {dict : List (String × MiValue)}
    (hname : '=' ∉ name) (hfuel : name.length < fuel) (hvalue : Takes (parseValue fuel) text value rest)
    (hstop : Stops rest) :
    Takes (resultEntries (fuel + 1) dict) (name ++ '=' :: text) (assign (String.ofList name) value dict) rest := by
  have hvariable := variableChars_takes name [] (text ++ rest) hname hfuel
  have htext : name ++ '=' :: text = name ++ ['='] ++ text := by rw [List.append_assoc]; rfl
  rw [resultEntries, htext]
  refine .look (checkLimit_takes (by simp)) (.bind hvariable (.last hvalue (.look (t := []) (nextChar_misses hstop) ?_)))
  exact .pure _ _

theorem resultEntries_takes_more {name text more : List Char} {value : MiValue} {dict results : List (String × MiValue)}
    (hname : '=' ∉ name) (hfuel : name.length < fuel) (hne : more ≠ [])
    (hvalue : Takes (parseValue fuel) text value (',' :: (more ++ rest)))
    (hmore : Takes (resultEntries fuel (assign (String.ofList name) value dict)) more results rest) :
    Takes (resultEntries (fuel + 1) dict) (name ++ '=' :: (text ++ ',' :: more)) results rest := by
  have hvariable := variableChars_takes name [] (text ++ ',' :: more ++ rest) hname hfuel
  have htext : name ++ '=' :: (text ++ ',' :: more) = name ++ ['='] ++ (text ++ ([','] ++ more)) := by
    rw [List.append_assoc]
    rfl
  have hcomma : Takes (nextChar ',') [','] true (more ++ rest) :=
    nextChar_takes fun h => hne (List.append_eq_nil_iff.mp h).1
  rw [List.append_assoc] at hvariable
  rw [resultEntries, htext]
  refine .look (checkLimit_takes (by simp)) (.bind (by rwa [List.append_assoc]) (.bind hvalue (.bind hcomma ?_)))
  exact hmore

theorem listValues_takes_last {text : List Char} {value : MiValue} {list : List MiValue} (hne : text ≠ [])
    (hvalue : Takes (parseValue fuel) text value rest) (hstop : Stops rest) :
    Takes (listValues (fuel + 1) list) text (list ++ [value]) rest := by
  rw [listValues]
  refine .look (checkLimit_takes fun h => hne (List.append_eq_nil_iff.mp h).1)
    (.last hvalue (.look (t := []) (nextChar_misses hstop) ?_))
  exact .pure _ _

theorem listValues_takes_more {text more : List Char} {value : MiValue} {list values : List MiValue} (hne : more ≠ [])
    (hvalue : Takes (parseValue fuel) text value (',' :: (more ++ rest)))
    (hmore : Takes (listValues fuel (list ++ [value])) more values rest) :
    Takes (listValues (fuel + 1) list) (text ++ ',' :: more) values rest := by
  have hcomma : Takes (nextChar ',') [','] true (more ++ rest) :=
    nextChar_takes fun h => hne (List.append_eq_nil_iff.mp h).1
  rw [listValues]
  refine .look (checkLimit_takes (by simp)) (.bind hvalue (.bind (t := [',']) hcomma ?_))
  exact hmore

theorem parseList_takes_values {text : List Char} {list : List MiValue}
    (hopens : ∃ c text', text = c :: text' ∧ (c = '"' ∨ c = '{' ∨ c = '['))
    (h : Takes (listValues fuel []) text list (']' :: rest)) :
    Takes (parseList (fuel + 1)) ('[' :: (text ++ [']'])) (.list list) rest := by
  obtain ⟨c, text', rfl, hc⟩ := hopens
  rw [parseList]
  refine .bind (t := ['[']) expectChar_takes (.look (t := c :: (text' ++ [']'])) peek_takes ?_)
  rw [if_pos (by simpa using hc)]
  exact .bind (u := [_]) h (.last expectChar_takes (.pure _ _))

theorem parseList_takes_nil (hrest : rest ≠ []) : Takes (parseList (fuel + 1)) ['[', ']'] (.list []) rest := by
  rw [parseList]
  refine .bind (t := ['[']) (u := [']']) expectChar_takes (.look (t := [']']) peek_takes ?_)
  exact .last (skip_takes hrest) (.pure _ _)

theorem parseValue_takes_const (s : List Char) (hfuel : s.length < fuel) :
    Takes (parseValue (fuel + 1)) ('"' :: MiTerm.printChars s) (.const s) rest := by
  rw [parseValue]
  refine .look (t := '"' :: MiTerm.printChars s) peek_takes (.last ?_ (.pure _ _))
  exact .bind (t := ['"']) expectChar_takes (cstringChars_takes s [] rest hfuel)

theorem parseValue_takes_tuple {text : List Char} {value : MiValue}
    (h : Takes (parseTuple fuel) ('{' :: text) value rest) : Takes (parseValue (fuel + 1)) ('{' :: text) value rest := by
  rw [parseValue]
  exact .look (t := '{' :: text) peek_takes h

theorem parseValue_takes_list {text : List Char} {value : MiValue}
    (h : Takes (parseList fuel) ('[' :: text) value rest) : Takes (parseValue (fuel + 1)) ('[' :: text) value rest := by
  rw [parseValue]
  exact .look (t := '[' :: text) peek_takes h

end Rounds

theorem print_opens (t : MiTerm) : ∃ c rest, t.print = c :: rest ∧ (c = '"' ∨ c = '{' ∨ c = '[') := by
  cases t with
  | const s => exact ⟨_, _, rfl, .inl rfl⟩
  | tuple rs => exact ⟨_, _, rfl, .inr (.inl rfl)⟩
  | values vs => exact ⟨_, _, rfl, .inr (.inr rfl)⟩
  | results rs => exact ⟨_, _, rfl, .inr (.inr rfl)⟩

theorem length_printChars (s : List Char) : s.length < (MiTerm.printChars s).length := by
  have h : s.length ≤ (s.flatMap MiTerm.escape).length := by
    induction s with
    | nil => exact Nat.le_refl _
    | cons c s ih =>
      rw [List.flatMap_cons, List.length_append, List.length_cons]
      rcases escape_cases c with ⟨e, hescape, -⟩ | ⟨hescape, -, -⟩
      · rw [hescape]
        simp only [List.length_cons, List.length_nil]
        omega
      · rw [hescape, List.length_singleton]
        omega
  rw [MiTerm.printChars, List.length_append, List.length_singleton]
  omega

theorem stops_cons {c : Char} (h : c ≠ ',') (rest : List Char) : Stops (c :: rest) := by
  rintro d hd
  cases hd
  exact h

mutual

theorem print_takes : ∀ (t : MiTerm) {fuel : Nat} {rest : List Char}, t.Readable → 3 * t.print.length < fuel →
    (t = .values [] → rest ≠ []) → Takes (parseValue fuel) t.print t.value rest
  | .const s, fuel, rest, _, hfuel, _ => by
    have hlen := length_printChars s
    rw [MiTerm.print, List.length_cons] at hfuel
    rw [MiTerm.print, MiTerm.value]
    obtain ⟨fuel, rfl⟩ := Nat.exists_eq_add_one_of_ne_zero (Nat.ne_zero_of_lt hfuel)
    exact parseValue_takes_const s (by omega)
  | .tuple rs, fuel, rest, hread, hfuel, _ => by
    rw [MiTerm.Readable] at hread
    rw [MiTerm.print, List.length_cons, List.length_append, List.length_singleton] at hfuel
    obtain ⟨fuel, rfl⟩ := Nat.exists_eq_add_of_le' (show 3 ≤ fuel by omega)
    rw [MiTerm.print, MiTerm.value]
    refine parseValue_takes_tuple (parseTuple_takes (opens_results hread.1 hread.2) ?_)
    exact printResults_takes rs _ _ _ hread.1 hread.2 (by omega) (stops_cons (by decide) _) fun _ => List.cons_ne_nil _ _
  | .values [], fuel, rest, _, hfuel, hrest => by
    obtain ⟨fuel, rfl⟩ := Nat.exists_eq_add_of_le' (show 2 ≤ fuel from Nat.lt_of_le_of_lt (by decide) hfuel)
    exact parseValue_takes_list (parseList_takes_nil (hrest rfl))
  | .values (t :: ts), fuel, rest, hread, hfuel, _ => by
    rw [MiTerm.Readable, MiTerm.ReadableValues] at hread
    rw [MiTerm.print, MiTerm.printValues, List.tail_cons, List.length_cons, List.length_append, List.length_singleton] at hfuel
    obtain ⟨fuel, rfl⟩ := Nat.exists_eq_add_of_le' (show 2 ≤ fuel by omega)
    rw [MiTerm.print, MiTerm.printValues, MiTerm.value]
    refine parseValue_takes_list (parseList_takes_values ?_ (printValues_takes t ts _ _ hread.1 hread.2 (by omega)))
    obtain ⟨c, text, htext, hc⟩ := print_opens t
    rw [List.tail_cons, htext]
    exact ⟨c, _, rfl, hc⟩
  | .results rs, fuel, rest, hread, hfuel, _ => by
    rw [MiTerm.Readable] at hread
    rw [MiTerm.print, List.length_cons, List.length_append, List.length_singleton] at hfuel
    obtain ⟨fuel, rfl⟩ := Nat.exists_eq_add_of_le' (show 3 ≤ fuel by omega)
    rw [MiTerm.print, MiTerm.value]
    refine parseValue_takes_list (parseList_takes_results (opens_results hread.1 hread.2) ?_)
    exact printResults_takes rs _ _ _ hread.1 hread.2 (by omega) (stops_cons (by decide) _) fun _ => List.cons_ne_nil _ _

theorem printValues_takes : ∀ (t : MiTerm) (ts : List MiTerm) {fuel : Nat} (list : List MiValue) (rest : List Char),
    t.Readable → MiTerm.ReadableValues ts → 3 * (t.print ++ MiTerm.printValues ts).length + 1 < fuel →
    Takes (listValues fuel list) (t.print ++ MiTerm.printValues ts) (list ++ MiTerm.valueList (t :: ts)) (']' :: rest)
  | t, [], fuel, list, rest, hread, _, hfuel => by
    rw [MiTerm.printValues, List.append_nil] at hfuel ⊢
    obtain ⟨fuel, rfl⟩ := Nat.exists_eq_add_one_of_ne_zero (Nat.ne_zero_of_lt hfuel)
    obtain ⟨c, text, htext, -⟩ := print_opens t
    refine listValues_takes_last (htext ▸ List.cons_ne_nil _ _) ?_ (stops_cons (by decide) _)
    exact print_takes t hread (by omega) fun _ => List.cons_ne_nil _ _
  | t, u :: us, fuel, list, rest, hread, hreads, hfuel => by
    rw [MiTerm.printValues, List.length_append, List.length_cons] at hfuel
    rw [MiTerm.ReadableValues] at hreads
    obtain ⟨fuel, rfl⟩ := Nat.exists_eq_add_one_of_ne_zero (Nat.ne_zero_of_lt hfuel)
    obtain ⟨c, text, htext, -⟩ := print_opens u
    have hmore := printValues_takes u us (list ++ [t.value]) rest hreads.1 hreads.2
      (show _ < fuel by omega)
    rw [MiTerm.printValues, MiTerm.valueList, List.append_cons list]
    refine listValues_takes_more (by rw [htext]; exact List.cons_ne_nil _ _) ?_ hmore
    exact print_takes t hread (by omega) fun _ => List.cons_ne_nil _ _

theorem printResults_takes : ∀ (rs : List (List Char × MiTerm)) (fuel : Nat) (dict : List (String × MiValue))
    (rest : List Char), rs ≠ [] → MiTerm.ReadableResults rs → 3 * (MiTerm.printResults rs).tail.length < fuel →
    Stops rest → (MiTerm.endsOpen rs = true → rest ≠ []) →
    Takes (resultEntries fuel dict) (MiTerm.printResults rs).tail (MiTerm.assignAll rs dict) rest
  | [(name, t)], fuel, dict, rest, _, hread, hfuel, hstop, hopen => by
    rw [MiTerm.ReadableResults] at hread
    rw [MiTerm.printResults, MiTerm.printResults, List.append_nil, List.tail_cons] at hfuel ⊢
    rw [List.length_append, List.length_cons] at hfuel
    obtain ⟨fuel, rfl⟩ := Nat.exists_eq_add_one_of_ne_zero (Nat.ne_zero_of_lt hfuel)
    exact resultEntries_takes_last hread.1.1 (by omega) (print_takes t hread.2.1 (by omega) fun ht => hopen (ht ▸ rfl)) hstop
  | (name, t) :: r :: rs, fuel, dict, rest, _, hread, hfuel, hstop, hopen => by
    rw [MiTerm.ReadableResults] at hread
    have hmore := printResults_takes (r :: rs) (fuel - 1) (assign (String.ofList name) t.value dict) rest
      (List.cons_ne_nil _ _) hread.2.2
    rw [MiTerm.printResults, List.tail_cons, printResults_cons (List.cons_ne_nil r rs)] at hfuel ⊢
    rw [List.length_append, List.length_cons, List.length_append, List.length_cons] at hfuel
    obtain ⟨fuel, rfl⟩ := Nat.exists_eq_add_one_of_ne_zero (Nat.ne_zero_of_lt hfuel)
    obtain ⟨c, text, htext, -⟩ := opens_results (List.cons_ne_nil r rs) hread.2.2
    refine resultEntries_takes_more hread.1.1 (by omega) (htext ▸ List.cons_ne_nil _ _) ?_
      (hmore (by omega) hstop hopen)
    exact print_takes t hread.2.1 (by omega) fun _ => List.cons_ne_nil _ _

end

/-! ### An empty list at the end -/

/-- The parser raises an exception when the text is the rest of the stream. -/
def Raises {α : Type} (x : ParseM α) (text : List Char) (e : MiError) : Prop :=
  ∀ done, ∃ s, x (between done text) = .error e s

section Raises
variable {α β : Type} {x : ParseM α} {f : α → ParseM β} {a : α} {t u : List Char} {e : MiError}

theorem Raises.bind (hx : Raises x t e) : Raises (x >>= f) t e := fun done =>
  (hx done).imp fun _ h => bind_error h

theorem Takes.raises (hx : Takes x t a u) (hf : Raises (f a) u e) : Raises (x >>= f) (t ++ u) e := by
  intro done
  obtain ⟨s, hs⟩ := hf (done ++ t)
  exact ⟨s, by rw [bind_ok (hx done), hs]⟩

theorem Takes.look_raises (hx : Takes x [] a u) (hf : Raises (f a) u e) : Raises (x >>= f) u e := Takes.raises hx hf

end Raises

theorem skip_raises (c : Char) : Raises (skip 1) [c] (.python .assertionError) := by
  intro done
  refine ⟨between done [c], ?_⟩
  show seek _ _ = _
  rw [seek, if_neg]
  simp [between]

theorem parseValue_raises {fuel : Nat} (hfuel : 2 ≤ fuel) :
    Raises (parseValue fuel) ['[', ']'] (.python .assertionError) := by
  obtain ⟨fuel, rfl⟩ := Nat.exists_eq_add_of_le' hfuel
  rw [parseValue]
  refine Takes.look_raises peek_takes ?_
  show Raises (parseList (fuel + 1)) _ _
  rw [parseList]
  exact Takes.raises (t := ['[']) expectChar_takes (Takes.look_raises peek_takes (skip_raises ']').bind)

theorem resultEntries_raises {rs : List (List Char × MiTerm)} (fuel : Nat) (dict : List (String × MiValue))
    (hread : MiTerm.ReadableResults rs) (hfuel : 3 * (MiTerm.printResults rs).tail.length < fuel) (hopen : MiTerm.endsOpen rs = true) :
    Raises (resultEntries fuel dict) (MiTerm.printResults rs).tail (.python .assertionError) := by
  induction rs generalizing fuel dict with
  | nil => cases hopen
  | cons r rs ih =>
    obtain ⟨name, t⟩ := r
    rw [MiTerm.ReadableResults] at hread
    have hvariable (rest : List Char) (h : name.length < fuel - 1) :=
      variableChars_takes name [] rest hread.1.1 h
    cases rs with
    | nil =>
      have ht : t.print = ['[', ']'] := by
        rw [MiTerm.eq_of_isEmptyList hopen]
        rfl
      rw [MiTerm.printResults, MiTerm.printResults, List.tail_cons, ht, List.append_nil, List.length_append] at hfuel
      obtain ⟨fuel, rfl⟩ := Nat.exists_eq_add_one_of_ne_zero (Nat.ne_zero_of_lt hfuel)
      simp only [List.length_cons, List.length_nil] at hfuel
      rw [MiTerm.printResults, MiTerm.printResults, List.tail_cons, ht, List.append_nil,
        show name ++ '=' :: ['[', ']'] = name ++ ['='] ++ ['[', ']'] by rw [List.append_assoc]; rfl, resultEntries]
      refine Takes.look_raises (checkLimit_takes (by simp)) (Takes.raises (hvariable _ (by omega)) ?_)
      exact (parseValue_raises (by omega)).bind
    | cons r rs =>
      have hmore (h) := ih (fuel - 1) (assign (String.ofList name) t.value dict) hread.2.2 h hopen
      obtain ⟨c, text, htext, -⟩ := opens_results (List.cons_ne_nil r rs) hread.2.2
      rw [MiTerm.printResults, List.tail_cons, printResults_cons (List.cons_ne_nil r rs), List.length_append,
        List.length_cons, List.length_append, List.length_cons] at hfuel
      obtain ⟨fuel, rfl⟩ := Nat.exists_eq_add_one_of_ne_zero (Nat.ne_zero_of_lt hfuel)
      have hvalue : Takes (parseValue fuel) t.print t.value ([','] ++ (MiTerm.printResults (r :: rs)).tail) :=
        print_takes t hread.2.1 (by omega) fun _ => List.cons_ne_nil _ _
      rw [MiTerm.printResults, List.tail_cons, printResults_cons (List.cons_ne_nil r rs),
        show name ++ '=' :: (t.print ++ ',' :: (MiTerm.printResults (r :: rs)).tail) =
          name ++ ['='] ++ (t.print ++ ([','] ++ (MiTerm.printResults (r :: rs)).tail)) by rw [List.append_assoc]; rfl,
        resultEntries]
      refine Takes.look_raises (checkLimit_takes (by simp)) (Takes.raises (hvariable _ (by omega)) ?_)
      refine Takes.raises hvalue (Takes.raises (nextChar_takes ?_) (hmore (by omega)))
      rw [htext]
      exact List.cons_ne_nil _ _

/-! ### The results of a record -/

theorem Takes.onStream {α : Type} {f : Nat → ParseM α} {text : List Char} {a : α} {rest : List Char}
    (h : Takes (f (enough (text ++ rest))) text a rest) : onStream f (text ++ rest) = .ok a := by
  have hrun : f _ ⟨text ++ rest, 0⟩ = _ := h []
  rw [MiParser.onStream, hrun]

theorem Raises.onStream {α : Type} {f : Nat → ParseM α} {text : List Char} {e : MiError}
    (h : Raises (f (enough text)) text e) : onStream f text = .error e := by
  obtain ⟨s, hrun⟩ := h []
  have hrun : f _ ⟨text, 0⟩ = _ := hrun
  rw [MiParser.onStream, hrun]

/-- The results of a record, with the comma behind its class -/
theorem parseResults_print {rs : List (List Char × MiTerm)} (hne : rs ≠ []) (hread : MiTerm.ReadableResults rs)
    (hopen : MiTerm.endsOpen rs = false) : onStream parseResults (MiTerm.printResults rs) = .ok (MiTerm.assignAll rs []) := by
  have hopens := opens_results hne hread
  have htail := printResults_takes rs (enough (MiTerm.printResults rs) - 1) [] [] hne hread
    (by rw [enough, List.length_tail]; omega) (fun c hc => by cases hc) fun h => absurd (hopen.symm.trans h) Bool.false_ne_true
  have h := parseResults_takes_comma hopens htail
  rw [← printResults_cons hne] at h
  have hrun : onStream parseResults (MiTerm.printResults rs ++ []) = _ := Takes.onStream (by rw [List.append_nil]; exact h)
  rwa [List.append_nil] at hrun

theorem parseResults_print_open {rs : List (List Char × MiTerm)} (hread : MiTerm.ReadableResults rs)
    (hopen : MiTerm.endsOpen rs = true) : onStream parseResults (MiTerm.printResults rs) = .error (.python .assertionError) := by
  have hne : rs ≠ [] := by
    rintro rfl
    cases hopen
  have htail := resultEntries_raises (enough (MiTerm.printResults rs) - 1) [] hread
    (by rw [enough, List.length_tail]; omega) hopen
  obtain ⟨c, text, htext, -⟩ := opens_results hne hread
  rw [htext] at htail
  have hcomma : MiTerm.printResults rs = [','] ++ c :: text := by
    rw [printResults_cons hne, htext]
    rfl
  rw [hcomma] at htail ⊢
  refine Raises.onStream ?_
  show Raises (parseResults (enough ([','] ++ c :: text) - 1 + 1)) _ _
  rw [parseResults]
  exact Takes.raises (nextChar_takes (List.cons_ne_nil _ _)) htail

/-! ### The records -/

theorem newline_notMem_printChars (s : List Char) : '\n' ∉ MiTerm.printChars s := by
  rw [MiTerm.printChars, List.mem_append, List.mem_flatMap, List.mem_singleton]
  rintro (⟨c, -, hmem⟩ | h)
  · revert hmem
    unfold MiTerm.escape
    split
    · decide
    · decide
    · decide
    · decide
    · next hnewline _ _ _ => exact fun hmem => hnewline (List.mem_singleton.mp hmem).symm
  · cases h

mutual

theorem newline_notMem_print : ∀ t : MiTerm, t.Readable → '\n' ∉ t.print
  | .const s, _ => by simp [MiTerm.print, newline_notMem_printChars]
  | .tuple rs, h => by
    rw [MiTerm.Readable] at h
    have hrs := mt List.mem_of_mem_tail (newline_notMem_printResults rs h.2)
    simp [MiTerm.print, hrs]
  | .values vs, h => by
    rw [MiTerm.Readable] at h
    have hvs := mt List.mem_of_mem_tail (newline_notMem_printValues vs h)
    simp [MiTerm.print, hvs]
  | .results rs, h => by
    rw [MiTerm.Readable] at h
    have hrs := mt List.mem_of_mem_tail (newline_notMem_printResults rs h.2)
    simp [MiTerm.print, hrs]

theorem newline_notMem_printValues : ∀ vs : List MiTerm, MiTerm.ReadableValues vs → '\n' ∉ MiTerm.printValues vs
  | [], _ => List.not_mem_nil
  | v :: vs, h => by
    rw [MiTerm.ReadableValues] at h
    simp [MiTerm.printValues, newline_notMem_print v h.1, newline_notMem_printValues vs h.2]

theorem newline_notMem_printResults : ∀ rs : List (List Char × MiTerm), MiTerm.ReadableResults rs →
    '\n' ∉ MiTerm.printResults rs
  | [], _ => List.not_mem_nil
  | (name, t) :: rs, h => by
    rw [MiTerm.ReadableResults] at h
    simp [MiTerm.printResults, h.1.2.1, newline_notMem_print t h.2.1, newline_notMem_printResults rs h.2.2]

end

theorem resultsGroup_print {text : List Char} (hne : text ≠ []) (h : '\n' ∉ text) :
    resultsGroup (',' :: text) = some (',' :: text) := by
  obtain ⟨c, text, rfl⟩ := List.exists_cons_of_ne_nil hne
  obtain ⟨hc, -⟩ := not_or.mp (mt List.mem_cons.mpr h)
  rw [resultsGroup, if_neg (Ne.symm hc), List.takeWhile_eq_self_iff.mpr]
  intro d hd
  exact decide_eq_true fun heq => h (heq ▸ hd)

theorem groupResults_print {rs : List (List Char × MiTerm)} (hread : MiTerm.ReadableResults rs) :
    groupResults (resultsGroup (MiTerm.printResults rs)) =
      if MiTerm.endsOpen rs then .error (.python .assertionError) else .ok (MiRecord.resultsValue rs) := by
  by_cases hne : rs = []
  · subst hne
    rfl
  · obtain ⟨c, text, htext, -⟩ := opens_results hne hread
    have hgroup : resultsGroup (MiTerm.printResults rs) = some (MiTerm.printResults rs) := by
      rw [printResults_cons hne]
      refine resultsGroup_print (htext ▸ List.cons_ne_nil _ _) ?_
      exact mt List.mem_of_mem_tail (newline_notMem_printResults rs hread)
    rw [hgroup, groupResults]
    split
    · next hopen => rw [parseResults_print_open hread hopen]; rfl
    · next hopen =>
      rw [parseResults_print hne hread (Bool.eq_false_of_not_eq_true hopen), MiRecord.resultsValue, List.isEmpty_eq_false_iff.mpr hne]
      rfl

/-- What follows a class does not continue it. -/
theorem printResults_head (rs : List (List Char × MiTerm)) : ∀ c ∈ (MiTerm.printResults rs).head?, c = ',' := by
  intro c hc
  cases rs with
  | nil => cases hc
  | cons r rs =>
    rw [printResults_cons (List.cons_ne_nil r rs)] at hc
    exact (Option.mem_some_iff.mp hc).symm

theorem takeWhile_append_stop {p : Char → Bool} {s t : List Char} (hs : ∀ c ∈ s, p c = true)
    (ht : ∀ c ∈ t.head?, p c = false) : (s ++ t).takeWhile p = s ∧ (s ++ t).dropWhile p = t := by
  rw [List.takeWhile_append_of_pos hs, List.dropWhile_append_of_pos hs]
  cases t with
  | nil => exact ⟨List.append_nil s, rfl⟩
  | cons c t =>
    have hc : p c = false := ht c rfl
    rw [List.takeWhile_cons_of_neg (ne_true_of_eq_false hc), List.dropWhile_cons_of_neg (ne_true_of_eq_false hc)]
    exact ⟨List.append_nil s, rfl⟩

theorem async_map_mark (type : AsyncType) : Async.map type.mark = some type := by cases type <;> rfl

/-- A text that may follow a class -/
abbrev FollowsClass (text : List Char) : Prop := ∀ c ∈ text.head?, c = ','

theorem parse_async (type : AsyncType) {klass text : List Char} (hne : klass ≠ []) (hcomma : ',' ∉ klass)
    (htext : FollowsClass text) :
    parse (type.mark :: (klass ++ text)) =
      (groupResults (resultsGroup text)).map fun results => .async ⟨type, klass, results⟩ := by
  obtain ⟨htake, hdrop⟩ := takeWhile_append_stop (p := (· ≠ ',')) (s := klass) (t := text)
    (fun c hc => decide_eq_true fun heq => hcomma (heq ▸ hc)) fun c hc => decide_eq_false (not_not.mpr (htext c hc))
  obtain ⟨k, klass, rfl⟩ := List.exists_cons_of_ne_nil hne
  rw [parse, if_pos (by rw [async_map_mark]; rfl), Async.ofLine, Async.search, async_map_mark, htake, hdrop]
  show ((groupResults (resultsGroup text)).map _).map _ = _
  cases groupResults (resultsGroup text) <;> rfl

theorem ofPrefix_word (klass : ResultClass) (rest : List Char) :
    ResultClass.ofPrefix (klass.word ++ rest) = some (klass, rest) := by cases klass <;> rfl

theorem isDigit_dec {token : Nat} {c : Char} (h : c ∈ Numeral.dec token) : c.isDigit = true :=
  Nat.isDigit_of_mem_toDigits (by decide) (by decide) h

theorem result_search (token : Nat) (klass : ResultClass) (text : List Char) :
    MiResult.search (Numeral.dec token ++ '^' :: (klass.word ++ text)) =
      some (Numeral.dec token, klass, resultsGroup text) := by
  obtain ⟨htake, hdrop⟩ := takeWhile_append_stop (s := Numeral.dec token) (t := '^' :: (klass.word ++ text))
    (fun c hc => isDigit_dec hc) fun c hc => by cases hc; rfl
  obtain ⟨d, ds, hdec⟩ := List.exists_cons_of_ne_nil (show Numeral.dec token ≠ [] from Nat.toDigits_ne_nil)
  rw [hdec] at htake hdrop ⊢
  rw [List.cons_append] at htake hdrop ⊢
  rw [MiResult.search]
  simp only [htake, hdrop, ofPrefix_word]

theorem parse_of_isDigit {c : Char} (h : c.isDigit = true) (rest : List Char) :
    parse (c :: rest) = (MiResult.ofLine (c :: rest)).map .result := by
  have hasync : Async.map c = none := by
    unfold Async.map
    split
    · cases h
    · cases h
    · cases h
    · rfl
  have hstream : MiStream.map c = none := by
    unfold MiStream.map
    split
    · cases h
    · cases h
    · cases h
    · rfl
  rw [parse, hasync, hstream, if_neg (by simp)]
  exact if_pos h

theorem parse_result (token : Nat) (klass : ResultClass) (text : List Char) :
    parse (Numeral.dec token ++ '^' :: (klass.word ++ text)) =
      (groupResults (resultsGroup text)).map fun results => .result ⟨token, klass, results⟩ := by
  have hint : int (Numeral.dec token) 10 = .ok (token : Int) := by rw [int, Numeral.parse_dec]
  have hsearch := result_search token klass text
  have hline : MiResult.ofLine (Numeral.dec token ++ '^' :: (klass.word ++ text)) =
      (groupResults (resultsGroup text)).map fun results => ⟨token, klass, results⟩ := by
    rw [MiResult.ofLine, hsearch]
    show ((int (Numeral.dec token) 10).mapError _ >>= fun token => _) = _
    rw [hint]
    cases groupResults (resultsGroup text) <;> rfl
  obtain ⟨d, ds, hdec⟩ := List.exists_cons_of_ne_nil (show Numeral.dec token ≠ [] from Nat.toDigits_ne_nil)
  have hdigit : d.isDigit = true := isDigit_dec (hdec ▸ List.mem_cons_self)
  rw [hdec] at hline ⊢
  rw [List.cons_append] at hline ⊢
  rw [parse_of_isDigit hdigit, hline]
  cases groupResults (resultsGroup text) <;> rfl

theorem parse_stream (type : StreamType) (rest : List Char) :
    parse (type.mark :: rest) = (onStream parseCstring rest).map fun string => .stream ⟨type, string⟩ := by
  cases type <;> rfl

theorem parseCstring_print (s : List Char) : onStream parseCstring ('"' :: MiTerm.printChars s) = .ok s := by
  have hlen := length_printChars s
  have h : Takes (parseCstring (enough ('"' :: MiTerm.printChars s ++ []))) ('"' :: MiTerm.printChars s) s [] :=
    .bind (t := ['"']) expectChar_takes (cstringChars_takes s [] [] (by simp [enough]; omega))
  have hrun := h.onStream
  rwa [List.append_nil] at hrun

/-- A record that has been written is parsed, unless it ends with an empty list. That one ends the parser, although it is
    well-formed. -/
theorem parse_print (r : MiRecord) (h : r.Readable) :
    parse r.print = if r.endsOpen then .error (.python .assertionError) else .ok r.message := by
  cases r with
  | async type klass rs =>
    obtain ⟨hne, hcomma, -, hread⟩ := h
    rw [MiRecord.print, parse_async type hne hcomma (printResults_head rs), groupResults_print hread]
    exact apply_ite (Except.map _) _ _ _
  | stream type s =>
    rw [MiRecord.print, parse_stream, parseCstring_print]
    rfl
  | result token klass rs =>
    rw [MiRecord.print, parse_result, groupResults_print h]
    exact apply_ite (Except.map _) _ _ _

/-- An empty list in a frame, and one at the end of a record -/
theorem parse_print_lists :
    parse "*stopped,frame=\x7bargs=[],level=\"0\"\x7d".toList =
        .ok (.async ⟨.exec, "stopped".toList,
          some (.tuple [("frame", .tuple [("args", .list []), ("level", .const ['0'])])])⟩) ∧
      parse "1509^done,changelist=[]".toList = .error (.python .assertionError) := by
  refine ⟨?_, ?_⟩
  · refine parse_print (.async .exec "stopped".toList [("frame".toList,
      .tuple [("args".toList, .values []), ("level".toList, .const ['0'])])]) ⟨by decide, by decide, by decide, ?_⟩
    simp [MiTerm.ReadableResults, MiTerm.Readable, MiTerm.ReadableValues, MiTerm.PlainName]
  · refine parse_print (.result 1509 .done [("changelist".toList, .values [])]) ?_
    simp [MiRecord.Readable, MiTerm.ReadableResults, MiTerm.Readable, MiTerm.ReadableValues, MiTerm.PlainName]

end MiParser

end Avatar
