import Mathlib.Data.List.DropRight

/-! Numerals as text. Texts are lists of ASCII characters.

    Reading follows the scripting languages: white space around the numeral and a sign are allowed, single
    underscores may stand between digits, and a hexadecimal numeral may have a prefix. -/

namespace Numeral

/-- The value of a digit, for bases up to 16. -/
def digitValue (c : Char) : Option Nat :=
  if '0' ≤ c ∧ c ≤ '9' then some (c.toNat - 48)
  else if 'a' ≤ c ∧ c ≤ 'f' then some (c.toNat - 87)
  else if 'A' ≤ c ∧ c ≤ 'F' then some (c.toNat - 55)
  else none

def digit (base : Nat) (c : Char) : Option Nat := (digitValue c).filter (· < base)

/-- The rest of a numeral whose first digits have the value `v`. -/
def digits (base v : Nat) : List Char → Option Nat
  | [] => some v
  | '_' :: c :: rest => (digit base c).bind fun d => digits base (v * base + d) rest
  | c :: rest => (digit base c).bind fun d => digits base (v * base + d) rest

def unprefixed (base : Nat) : List Char → Option Nat
  | [] => none
  | c :: rest => (digit base c).bind fun d => digits base d rest

/-- A numeral without a sign. An underscore may follow the prefix. -/
def unsigned (base : Nat) (s : List Char) : Option Nat :=
  match base, s with
  | 16, '0' :: 'x' :: '_' :: rest | 16, '0' :: 'X' :: '_' :: rest | 16, '0' :: 'x' :: rest
  | 16, '0' :: 'X' :: rest => unprefixed 16 rest
  | _, _ => unprefixed base s

def isSpace (c : Char) : Bool := c ∈ [' ', '\t', '\n', '\x0b', '\x0c', '\r']

def strip (s : List Char) : List Char := (s.dropWhile isSpace).rdropWhile isSpace

/-- The integer that a text stands for in a base. -/
def parse (base : Nat) (s : List Char) : Option Int :=
  match strip s with
  | '-' :: rest => (unsigned base rest).map fun n => -(n : Int)
  | '+' :: rest => (unsigned base rest).map Int.ofNat
  | rest => (unsigned base rest).map Int.ofNat

/-- `"%x"` of a number that is not negative -/
def hex (n : Nat) : List Char := Nat.toDigits 16 n

/-- `"%x"` -/
def hexInt : Int → List Char
  | .ofNat n => hex n
  | .negSucc n => '-' :: hex (n + 1)

/-- `"%d"` of a number that is not negative -/
def dec (n : Nat) : List Char := Nat.toDigits 10 n

/-- `"%d"` -/
def decInt : Int → List Char
  | .ofNat n => dec n
  | .negSucc n => '-' :: dec (n + 1)

/-- `"%02x"` of a number that is not negative -/
def hex2 (n : Nat) : List Char := (hex n).leftpad 2 '0'

/-! ### Digits -/

theorem digitValue_digitChar : ∀ d < 16, digitValue d.digitChar = some d := by decide

theorem digitChar_ne {d : Nat} (h : d < 16) {c : Char} (hc : digitValue c = none) : d.digitChar ≠ c := by
  rintro rfl
  rw [digitValue_digitChar d h] at hc
  cases hc

theorem digit_digitChar {base d : Nat} (hbase : base ≤ 16) (h : d < base) : digit base d.digitChar = some d := by
  rw [digit, digitValue_digitChar d (by omega), Option.filter_some, if_pos (decide_eq_true h)]

/-- A digit of a larger base is none of a smaller one. -/
theorem digit_digitChar_eq_none {base d : Nat} (h : base ≤ d) (hd : d < 16) : digit base d.digitChar = none := by
  rw [digit, digitValue_digitChar d hd, Option.filter_some, if_neg (by simpa using h)]

theorem mem_toDigits {base n : Nat} (hbase : 1 < base) {c : Char} (h : c ∈ Nat.toDigits base n) :
    ∃ d < base, c = d.digitChar := by
  induction n using Nat.strongRecOn with
  | ind n ih =>
    rw [Nat.toDigits_eq_if hbase] at h
    split at h
    · rename_i hlt
      exact ⟨n, hlt, List.mem_singleton.mp h⟩
    · rename_i hle
      rcases List.mem_append.mp h with h | h
      · exact ih _ (Nat.div_lt_self (by omega) hbase) h
      · exact ⟨n % base, Nat.mod_lt _ (by omega), List.mem_singleton.mp h⟩

theorem notMem_hex {c : Char} (h : digitValue c = none) (n : Nat) : c ∉ hex n := by
  intro hmem
  obtain ⟨d, hd, rfl⟩ := mem_toDigits (by decide) hmem
  exact digitChar_ne hd h rfl

/-- A byte has two digits. -/
theorem hex2_of_lt {n : Nat} (h : n < 256) : hex2 n = [(n / 16).digitChar, (n % 16).digitChar] := by
  rw [hex2, hex, Nat.toDigits_eq_if (by decide)]
  split
  · rename_i hlt
    rw [Nat.div_eq_of_lt hlt, Nat.mod_eq_of_lt hlt]
    rfl
  · rw [Nat.toDigits_of_lt_base (by omega)]
    rfl

/-! ### Reading what has been written -/

theorem digits_cons {base v : Nat} {c : Char} (h : c ≠ '_') (rest : List Char) :
    digits base v (c :: rest) = (digit base c).bind fun d => digits base (v * base + d) rest := by
  rw [digits]
  exact fun _ _ heq => absurd heq h

theorem digits_append {base : Nat} {s t : List Char} (hs : '_' ∉ s) (v : Nat) :
    digits base v (s ++ t) = (digits base v s).bind fun v => digits base v t := by
  induction s generalizing v with
  | nil => rfl
  | cons c s ih =>
    obtain ⟨hc, hs⟩ := not_or.mp (mt List.mem_cons.mpr hs)
    rw [List.cons_append, digits_cons (Ne.symm hc), digits_cons (Ne.symm hc), Option.bind_assoc]
    exact congrArg _ (funext fun d => ih hs _)

theorem unprefixed_append {base : Nat} {s t : List Char} (hs : '_' ∉ s) (hne : s ≠ []) :
    unprefixed base (s ++ t) = (unprefixed base s).bind fun v => digits base v t := by
  cases s with
  | nil => exact absurd rfl hne
  | cons c s =>
    obtain ⟨-, hs⟩ := not_or.mp (mt List.mem_cons.mpr hs)
    rw [List.cons_append, unprefixed, unprefixed, Option.bind_assoc]
    exact congrArg _ (funext fun d => digits_append hs d)

/-- The last digit of a numeral that may be read in another base. -/
theorem unprefixed_toDigits_of_le {base base' n : Nat} (hbase : 1 < base') (hbase' : base' ≤ 16) (h : base' ≤ n) :
    unprefixed base (Nat.toDigits base' n) = (unprefixed base (Nat.toDigits base' (n / base'))).bind fun v =>
      (digit base (n % base').digitChar).map fun d => v * base + d := by
  have hdigit {d : Nat} (hd : d < base') : d.digitChar ≠ '_' := digitChar_ne (by omega) rfl
  have hunderscore : '_' ∉ Nat.toDigits base' (n / base') := by
    intro hmem
    obtain ⟨d, hd, heq⟩ := mem_toDigits hbase hmem
    exact hdigit hd heq.symm
  have hne : Nat.toDigits base' (n / base') ≠ [] := by
    rw [Nat.toDigits_eq_if hbase]
    split <;> simp
  rw [Nat.toDigits_eq_if hbase, if_neg (Nat.not_lt.mpr h), unprefixed_append hunderscore hne]
  refine congrArg _ (funext fun v => ?_)
  rw [digits_cons (hdigit (Nat.mod_lt _ (by omega))), Option.map_eq_bind]
  rfl

theorem unprefixed_digit (base : Nat) {base' n : Nat} (h : n < base') :
    unprefixed base (Nat.toDigits base' n) = digit base n.digitChar := by
  rw [Nat.toDigits_of_lt_base h, unprefixed]
  cases digit base n.digitChar <;> rfl

theorem unprefixed_toDigits {base : Nat} (hbase : 1 < base) (hbase' : base ≤ 16) (n : Nat) :
    unprefixed base (Nat.toDigits base n) = some n := by
  induction n using Nat.strongRecOn with
  | ind n ih =>
    by_cases h : n < base
    · rw [unprefixed_digit base h, digit_digitChar hbase' h]
    · rw [unprefixed_toDigits_of_le hbase hbase' (Nat.not_lt.mp h), ih _ (Nat.div_lt_self (by omega) hbase),
        Option.bind_some, digit_digitChar hbase' (Nat.mod_lt _ (by omega)), Option.map_some, Nat.div_add_mod']

/-- A numeral that is read in a smaller base is smaller, if it can be read at all and is no digit of that base. -/
theorem unprefixed_toDigits_lt {base base' n v : Nat} (hbase : 1 < base) (hlt : base < base') (hbase' : base' ≤ 16)
    (h : unprefixed base (Nat.toDigits base' n) = some v) : v ≤ n ∧ (base ≤ n → v < n) := by
  induction n using Nat.strongRecOn generalizing v with
  | ind n ih =>
    by_cases hn : n < base'
    · rw [unprefixed_digit base hn] at h
      by_cases hdigit : n < base
      · rw [digit_digitChar (by omega) hdigit] at h
        cases h
        exact ⟨Nat.le_refl _, fun h => absurd hdigit (Nat.not_lt.mpr h)⟩
      · rw [digit_digitChar_eq_none (Nat.not_lt.mp hdigit) (by omega)] at h
        cases h
    · rw [unprefixed_toDigits_of_le (by omega) hbase' (Nat.not_lt.mp hn)] at h
      obtain ⟨u, hu, h⟩ := Option.bind_eq_some_iff.mp h
      obtain ⟨d, hd, rfl⟩ := Option.map_eq_some_iff.mp h
      have hmod : n % base' < base' := Nat.mod_lt _ (by omega)
      obtain rfl : n % base' = d := by
        by_cases hdigit : n % base' < base
        · exact Option.some.inj ((digit_digitChar (by omega) hdigit).symm.trans hd)
        · rw [digit_digitChar_eq_none (Nat.not_lt.mp hdigit) (by omega)] at hd
          cases hd
      have hquotient : 0 < n / base' := Nat.div_pos (Nat.not_lt.mp hn) (by omega)
      have hsmaller : u * base + n % base' < n := by
        calc u * base + n % base' ≤ n / base' * base + n % base' :=
              Nat.add_le_add_right (Nat.mul_le_mul_right _ (ih _ (Nat.div_lt_self (by omega) (by omega)) hu).1) _
          _ < n / base' * base' + n % base' := Nat.add_lt_add_right (Nat.mul_lt_mul_of_pos_left hlt hquotient) _
          _ = n := Nat.div_add_mod' ..
      exact ⟨Nat.le_of_lt hsmaller, fun _ => hsmaller⟩

theorem unsigned_of_notMem {base : Nat} {s : List Char} (hx : 'x' ∉ s) (hX : 'X' ∉ s) :
    unsigned base s = unprefixed base s := by
  unfold unsigned
  split
  · simp at hx
  · simp at hX
  · simp at hx
  · simp at hX
  · rfl

theorem strip_eq_self {s : List Char} (h : ∀ c ∈ s, isSpace c = false) : strip s = s := by
  rw [strip, List.dropWhile_eq_self_iff.mpr fun hlen => by rw [h _ (List.getElem_mem _)]; exact Bool.false_ne_true,
    List.rdropWhile_eq_self_iff.mpr fun hne => by rw [h _ (List.getLast_mem _)]; exact Bool.false_ne_true]

theorem parse_of_unsigned {base : Nat} {s : List Char} (hspace : ∀ c ∈ s, isSpace c = false) (hminus : '-' ∉ s)
    (hplus : '+' ∉ s) : parse base s = (unsigned base s).map Int.ofNat := by
  rw [parse, strip_eq_self hspace]
  split
  · simp at hminus
  · simp at hplus
  · rfl

theorem isSpace_eq_false {c : Char} (h : (digitValue c).isSome = true) : isSpace c = false := by
  rw [← Bool.not_eq_true]
  intro hspace
  simp only [isSpace, decide_eq_true_eq, List.mem_cons, List.not_mem_nil, or_false] at hspace
  rcases hspace with rfl | rfl | rfl | rfl | rfl | rfl <;> exact absurd h (by decide)

theorem isSome_digitValue_of_mem_toDigits {base n : Nat} (hbase : 1 < base) (hbase' : base ≤ 16) {c : Char}
    (h : c ∈ Nat.toDigits base n) : (digitValue c).isSome = true := by
  obtain ⟨d, hd, rfl⟩ := mem_toDigits hbase h
  rw [digitValue_digitChar d (by omega)]
  rfl

theorem notMem_toDigits {base : Nat} (hbase : 1 < base) (hbase' : base ≤ 16) {c : Char} (h : digitValue c = none)
    (n : Nat) : c ∉ Nat.toDigits base n := by
  intro hmem
  have hsome := isSome_digitValue_of_mem_toDigits hbase hbase' hmem
  rw [h] at hsome
  cases hsome

/-- A numeral in another base -/
theorem parse_toDigits_eq {base' : Nat} (hbase : 1 < base') (hbase' : base' ≤ 16) (base n : Nat) :
    parse base (Nat.toDigits base' n) = (unprefixed base (Nat.toDigits base' n)).map Int.ofNat := by
  have hnot : ∀ {c : Char}, digitValue c = none → c ∉ Nat.toDigits base' n := fun h => notMem_toDigits hbase hbase' h n
  rw [parse_of_unsigned (fun c hc => isSpace_eq_false (isSome_digitValue_of_mem_toDigits hbase hbase' hc)) (hnot rfl)
    (hnot rfl), unsigned_of_notMem (hnot rfl) (hnot rfl)]

/-- A hexadecimal numeral in another base -/
theorem parse_hex_eq (base n : Nat) : parse base (hex n) = (unprefixed base (hex n)).map Int.ofNat :=
  parse_toDigits_eq (by decide) (by decide) base n

theorem parse_hex (n : Nat) : parse 16 (hex n) = some (n : Int) := by
  rw [parse_hex_eq, hex, unprefixed_toDigits (by decide) (by decide)]
  rfl

theorem parse_dec (n : Nat) : parse 10 (dec n) = some (n : Int) := by
  rw [dec, parse_toDigits_eq (by decide) (by decide), unprefixed_toDigits (by decide) (by decide)]
  rfl

/-- A hexadecimal numeral with its prefix -/
theorem parse_prefixed_hex (n : Nat) : parse 16 ('0' :: 'x' :: hex n) = some (n : Int) := by
  obtain ⟨c, rest, hcons⟩ := List.exists_cons_of_ne_nil (show hex n ≠ [] from Nat.toDigits_ne_nil)
  have hunderscore : c ≠ '_' := by
    rintro rfl
    have hmem : '_' ∈ hex n := by
      rw [hcons]
      exact .head _
    exact notMem_hex rfl n hmem
  have hspace : ∀ d ∈ '0' :: 'x' :: hex n, isSpace d = false := by
    intro d hd
    rcases List.mem_cons.mp hd with rfl | hd
    · rfl
    rcases List.mem_cons.mp hd with rfl | hd
    · rfl
    exact isSpace_eq_false (isSome_digitValue_of_mem_toDigits (by decide) (by decide) hd)
  have hsign : ∀ d, digitValue d = none → d ≠ 'x' → d ∉ '0' :: 'x' :: hex n := by
    intro d hd hx hmem
    rcases List.mem_cons.mp hmem with rfl | hmem
    · cases hd
    rcases List.mem_cons.mp hmem with rfl | hmem
    · exact hx rfl
    exact notMem_hex hd n hmem
  have hunsigned : unsigned 16 ('0' :: 'x' :: hex n) = unprefixed 16 (hex n) := by
    rw [hcons]
    unfold unsigned
    split
    all_goals simp_all
  rw [parse_of_unsigned hspace (hsign _ rfl (by decide)) (hsign _ rfl (by decide)), hunsigned, hex,
    unprefixed_toDigits (by decide) (by decide)]
  rfl

/-- Two digits -/
theorem parse_pair {base : Nat} {c d : Char} {high low : Nat} (hc : digit base c = some high)
    (hd : digit base d = some low) : parse base [c, d] = some ((high * base + low : Nat) : Int) := by
  have hvalue {e : Char} {v : Nat} (he : digit base e = some v) : (digitValue e).isSome = true := by
    rw [digit] at he
    exact Option.isSome_of_mem (Option.filter_eq_some_iff.mp he).1
  have hsome : ∀ e ∈ [c, d], (digitValue e).isSome = true := by
    intro e he
    rcases List.mem_pair.mp he with rfl | rfl
    · exact hvalue hc
    · exact hvalue hd
  have hnot {e : Char} (he : digitValue e = none) : e ∉ [c, d] := by
    intro hmem
    have hdigit := hsome e hmem
    rw [he] at hdigit
    cases hdigit
  have hunderscore : d ≠ '_' := fun heq => hnot (e := '_') rfl (heq ▸ .tail _ (.head _))
  rw [parse_of_unsigned (fun e he => isSpace_eq_false (hsome e he)) (hnot rfl) (hnot rfl),
    unsigned_of_notMem (hnot rfl) (hnot rfl), unprefixed, hc, Option.bind_some, digits_cons hunderscore, hd]
  rfl

/-- Two digits, of which the first may be a zero. -/
theorem parse_hex2 {n : Nat} (h : n < 256) : parse 16 (hex2 n) = some (n : Int) := by
  have hlow : n % 16 < 16 := Nat.mod_lt _ (by decide)
  rw [hex2_of_lt h, parse_pair (digit_digitChar (Nat.le_refl _) (by omega)) (digit_digitChar (Nat.le_refl _) hlow)]
  exact congrArg (some ∘ Int.ofNat) (Nat.div_add_mod' n 16)

theorem digit_of_isDigit {c : Char} (h : c.isDigit = true) : (digit 10 c).isSome = true := by
  obtain ⟨hlow, hhigh⟩ := Bool.and_eq_true_iff.mp h
  have hlow : '0' ≤ c := of_decide_eq_true hlow
  have hhigh : c ≤ '9' := of_decide_eq_true hhigh
  have hle : c.toNat ≤ 57 := hhigh
  rw [digit, digitValue, if_pos ⟨hlow, hhigh⟩, Option.filter_some, if_pos (decide_eq_true (by omega))]
  rfl

theorem isSome_digits {s : List Char} (hs : ∀ c ∈ s, c.isDigit = true) (v : Nat) : (digits 10 v s).isSome = true := by
  induction s generalizing v with
  | nil => rfl
  | cons c s ih =>
    obtain ⟨hc, hs⟩ := List.forall_mem_cons.mp hs
    obtain ⟨d, hd⟩ := Option.isSome_iff_exists.mp (digit_of_isDigit hc)
    have hne : c ≠ '_' := by
      rintro rfl
      cases hc
    rw [digits_cons hne, hd]
    exact ih hs _

/-- A text of decimal digits is a numeral. -/
theorem isSome_parse_of_isDigit {s : List Char} (hs : ∀ c ∈ s, c.isDigit = true) (hne : s ≠ []) :
    (parse 10 s).isSome = true := by
  have hnot : ∀ {c : Char}, c.isDigit = false → c ∉ s := fun h hmem => by
    rw [hs _ hmem] at h
    cases h
  have hspace : ∀ c ∈ s, isSpace c = false := by
    intro c hc
    obtain ⟨d, hd⟩ := Option.isSome_iff_exists.mp (digit_of_isDigit (hs c hc))
    exact isSpace_eq_false (Option.isSome_of_mem (Option.filter_eq_some_iff.mp hd).1)
  rw [parse_of_unsigned hspace (hnot rfl) (hnot rfl), unsigned_of_notMem (hnot rfl) (hnot rfl), Option.isSome_map]
  obtain ⟨c, s, rfl⟩ := List.exists_cons_of_ne_nil hne
  obtain ⟨hc, hs⟩ := List.forall_mem_cons.mp hs
  obtain ⟨d, hd⟩ := Option.isSome_iff_exists.mp (digit_of_isDigit hc)
  rw [unprefixed, hd]
  exact isSome_digits hs d

end Numeral
