import Avatar.Lib.Numeral

/-! JSON: values, the grammar of the texts that stand for them, a reader and a writer. Texts are lists of
    characters. -/

namespace Json

/-- A string as a list of UTF-16 code units -/
abbrev Str := List Nat

/-- White space between the tokens -/
def isSpace (c : Char) : Bool := c = ' ' || c = '\t' || c = '\n' || c = '\r'

def Space (w : List Char) : Prop := ∀ c ∈ w, isSpace c = true

instance (w : List Char) : Decidable (Space w) := List.decidableBAll (fun c : Char => isSpace c = true) w

/-! ### Numbers -/

def isDigits (s : List Char) : Bool := s ≠ [] && s.all Char.isDigit

/-- What may follow the digits of a number: an exponent -/
def isExponent : List Char → Bool
  | [] => true
  | e :: '+' :: digits => (e = 'e' || e = 'E') && isDigits digits
  | e :: '-' :: digits => (e = 'e' || e = 'E') && isDigits digits
  | e :: digits => (e = 'e' || e = 'E') && isDigits digits

/-- What may follow the integer: a fraction and an exponent -/
def isFraction : List Char → Bool
  | '.' :: rest => isDigits (rest.takeWhile Char.isDigit) && isExponent (rest.dropWhile Char.isDigit)
  | rest => isExponent rest

/-- Only a zero begins with a zero. -/
def isUnsigned : List Char → Bool
  | [] => false
  | '0' :: rest => isFraction rest
  | c :: rest => c.isDigit && isFraction (rest.dropWhile Char.isDigit)

def isNumber : List Char → Bool
  | '-' :: rest => isUnsigned rest
  | s => isUnsigned s

/-- The characters of numbers -/
def isNumberChar (c : Char) : Bool := c.isDigit || c ∈ ['-', '+', '.', 'e', 'E']

end Json

/-- The members of an object are in the order of the text, and may repeat a key. A number is kept as it is written. -/
inductive Json where
  | null
  | bool (b : Bool)
  | num (literal : {s : List Char // Json.isNumber s = true})
  | str (units : Json.Str)
  | arr (elements : List Json)
  | obj (members : List (Json.Str × Json))

namespace Json

/-! ### The grammar -/

def utf16 (c : Char) : Str :=
  if c.toNat < 0x10000 then [c.toNat]
  else [0xD800 + (c.toNat - 0x10000) / 0x400, 0xDC00 + (c.toNat - 0x10000) % 0x400]

def units (s : String) : Str := s.toList.flatMap utf16

/-- A character that stands for itself in a string -/
def isPlain (c : Char) : Bool := 0x20 ≤ c.toNat && c ≠ '"' && c ≠ '\\'

/-- What follows a backslash, and what it stands for -/
def escape : Char → Option Nat
  | '"' => some 0x22
  | '\\' => some 0x5C
  | '/' => some 0x2F
  | 'b' => some 0x08
  | 'f' => some 0x0C
  | 'n' => some 0x0A
  | 'r' => some 0x0D
  | 't' => some 0x09
  | _ => none

def hex4 (a b c d : Char) : Option Nat := do
  let a ← Numeral.digit 16 a
  let b ← Numeral.digit 16 b
  let c ← Numeral.digit 16 c
  let d ← Numeral.digit 16 d
  some (((a * 16 + b) * 16 + c) * 16 + d)

/-- The text of a string between its quotes -/
inductive Chars : Str → List Char → Prop where
  | nil : Chars [] []
  | plain {c : Char} {u : Str} {t : List Char} : isPlain c = true → Chars u t → Chars (utf16 c ++ u) (c :: t)
  | escape {c : Char} {n : Nat} {u : Str} {t : List Char} : escape c = some n → Chars u t →
      Chars (n :: u) ('\\' :: c :: t)
  | unicode {a b c d : Char} {n : Nat} {u : Str} {t : List Char} : hex4 a b c d = some n → Chars u t →
      Chars (n :: u) ('\\' :: 'u' :: a :: b :: c :: d :: t)

/-- What stands between brackets: items, of which `P` holds, with white space around them and commas between them -/
inductive Items {α : Type} (P : α → List Char → Prop) : List α → List Char → Prop where
  | nil {w : List Char} : Space w → Items P [] w
  | one {w w' s : List Char} {a : α} : Space w → P a s → Space w' → Items P [a] (w ++ (s ++ w'))
  | cons {w w' s t : List Char} {a b : α} {as : List α} : Space w → P a s → Space w' → Items P (b :: as) t →
      Items P (a :: b :: as) (w ++ (s ++ (w' ++ ',' :: t)))

/-- A key and a value -/
inductive Member (P : Json → List Char → Prop) : Str × Json → List Char → Prop where
  | mk {key : Str} {v : Json} {k w w' s : List Char} : Chars key k → Space w → Space w' → P v s →
      Member P (key, v) ('"' :: (k ++ '"' :: (w ++ ':' :: (w' ++ s))))

/-- The texts of a value that is nested less than `n` deep, without white space around them -/
def Text : Nat → Json → List Char → Prop
  | 0, _, _ => False
  | n + 1, v, s =>
    match v with
    | null => s = "null".toList
    | bool true => s = "true".toList
    | bool false => s = "false".toList
    | num literal => s = literal
    | str u => ∃ t, s = '"' :: (t ++ ['"']) ∧ Chars u t
    | arr elements => ∃ t, s = '[' :: (t ++ [']']) ∧ Items (Text n) elements t
    | obj members => ∃ t, s = '{' :: (t ++ ['}']) ∧ Items (Member (Text n)) members t

/-- The texts of a value -/
def IsText (v : Json) (s : List Char) : Prop := ∃ n w t w', s = w ++ (t ++ w') ∧ Space w ∧ Text n v t ∧ Space w'

/-! ### The reader -/

def skip (s : List Char) : List Char := s.dropWhile isSpace

/-- A string, behind its first quote -/
def chars : List Char → Option (Str × List Char)
  | [] => none
  | '"' :: rest => some ([], rest)
  | '\\' :: 'u' :: a :: b :: c :: d :: rest => do
    let n ← hex4 a b c d
    let (u, rest) ← chars rest
    some (n :: u, rest)
  | '\\' :: c :: rest => do
    let n ← escape c
    let (u, rest) ← chars rest
    some (n :: u, rest)
  | c :: rest =>
    if isPlain c then do
      let (u, rest) ← chars rest
      some (utf16 c ++ u, rest)
    else none

section Items
variable {α : Type} (p : List Char → Option (α × List Char)) (close : Char)

/-- At most `n` items, up to the bracket that closes them -/
def items : Nat → List Char → Option (List α × List Char)
  | 0, _ => none
  | n + 1, s => do
    let (a, s) ← p (skip s)
    match skip s with
    | [] => none
    | c :: s =>
      if c = ',' then do
        let (as, s) ← items n s
        some (a :: as, s)
      else if c = close then some ([a], s)
      else none

def bracketed (s : List Char) : Option (List α × List Char) :=
  match skip s with
  | [] => none
  | c :: rest => if c = close then some ([], rest) else items p close s.length s

end Items

def colon (s : List Char) : Option (List Char) :=
  match skip s with
  | ':' :: s => some s
  | _ => none

def member (p : List Char → Option (Json × List Char)) : List Char → Option ((Str × Json) × List Char)
  | '"' :: s => do
    let (key, s) ← chars s
    let s ← colon s
    let (v, s) ← p (skip s)
    some ((key, v), s)
  | _ => none

def number (s : List Char) : Option (Json × List Char) :=
  if h : isNumber (s.takeWhile isNumberChar) = true then some (num ⟨s.takeWhile isNumberChar, h⟩, s.dropWhile isNumberChar)
  else none

/-- A value that is nested less than `n` deep, at the beginning of a text -/
def value : Nat → List Char → Option (Json × List Char)
  | 0, _ => none
  | n + 1, s =>
    match s with
    | 'n' :: 'u' :: 'l' :: 'l' :: rest => some (null, rest)
    | 't' :: 'r' :: 'u' :: 'e' :: rest => some (bool true, rest)
    | 'f' :: 'a' :: 'l' :: 's' :: 'e' :: rest => some (bool false, rest)
    | '"' :: rest => (chars rest).map fun r => (str r.1, r.2)
    | '[' :: rest => (bracketed (value n) ']' rest).map fun r => (arr r.1, r.2)
    | '{' :: rest => (bracketed (member (value n)) '}' rest).map fun r => (obj r.1, r.2)
    | s => number s

/-- `json.loads` -/
def loads (s : List Char) : Option Json :=
  match value (s.length + 1) (skip s) with
  | none => none
  | some (v, rest) => if skip rest = [] then some v else none

/-! ### The writer -/

/-- The text of a code unit in a string. What is not printable ASCII is escaped. -/
def dumpsUnit : Nat → List Char
  | 0x22 => "\\\"".toList
  | 0x5C => "\\\\".toList
  | 0x08 => "\\b".toList
  | 0x0C => "\\f".toList
  | 0x0A => "\\n".toList
  | 0x0D => "\\r".toList
  | 0x09 => "\\t".toList
  | n => if 0x20 ≤ n ∧ n < 0x7F then [Char.ofNat n] else "\\u".toList ++ (Numeral.hex n).leftpad 4 '0'

def dumpsStr (u : Str) : List Char := '"' :: (u.flatMap dumpsUnit ++ ['"'])

mutual

/-- `json.dumps` -/
def dumps : Json → List Char
  | null => "null".toList
  | bool true => "true".toList
  | bool false => "false".toList
  | num literal => literal
  | str u => dumpsStr u
  | arr elements => '[' :: (dumpsElements elements ++ [']'])
  | obj members => '{' :: (dumpsMembers members ++ ['}'])

def dumpsElements : List Json → List Char
  | [] => []
  | [v] => dumps v
  | v :: vs => dumps v ++ ", ".toList ++ dumpsElements vs

def dumpsMembers : List (Str × Json) → List Char
  | [] => []
  | [(key, v)] => dumpsStr key ++ ": ".toList ++ dumps v
  | (key, v) :: ms => dumpsStr key ++ ": ".toList ++ dumps v ++ ", ".toList ++ dumpsMembers ms

end

end Json
