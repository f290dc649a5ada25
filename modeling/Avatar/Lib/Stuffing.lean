import Mathlib.Data.List.Basic

/-! Byte stuffing over any alphabet. A frame is a message in which the flag and the escape symbol are
    replaced by two-symbol sequences, followed by one flag. The decoder reads one symbol at a time. -/

namespace Stuffing

/-- The four symbols of a stuffing code. The sequences that replace the flag and the escape symbol
    are told apart by their second symbols, and neither contains the flag. -/
structure Code (α : Type) where
  flag : α
  esc : α
  flagCode : α
  escCode : α
  flag_ne_esc : flag ≠ esc
  flagCode_ne_flag : flagCode ≠ flag
  escCode_ne_flag : escCode ≠ flag
  escCode_ne_flagCode : escCode ≠ flagCode

/-- Replace every occurrence of the symbol `x` by the string `ys`. -/
def replaceAll {α : Type} [DecidableEq α] (x : α) (ys l : List α) : List α :=
  l.flatMap fun y => if y = x then ys else [y]

/-- What the decoder remembers: the symbols of the unfinished frame, and whether the last symbol was
    an escape symbol. -/
structure Decoder (α : Type) where
  buffer : List α
  escaped : Bool
deriving DecidableEq

namespace Code
variable {α : Type} [DecidableEq α] (c : Code α)

def stuff (x : α) : List α :=
  if x = c.esc then [c.esc, c.escCode] else if x = c.flag then [c.esc, c.flagCode] else [x]

/-- The symbol that an escape symbol and `x` stand for. An unknown sequence reads as the escape symbol. -/
def unescape (x : α) : α := if x = c.flagCode then c.flag else c.esc

/-- One symbol: the new state and, at a flag, the frame it ends. -/
def feed (d : Decoder α) (x : α) : Decoder α × Option (List α) :=
  if d.escaped then (⟨d.buffer ++ [c.unescape x], false⟩, none)
  else if x = c.flag then (⟨[], false⟩, some d.buffer)
  else if x = c.esc then (⟨d.buffer, true⟩, none)
  else (⟨d.buffer ++ [x], false⟩, none)

/-- Feed a string, collecting the frames that end in it. -/
def feedAll : Decoder α → List α → Decoder α × List (List α)
  | d, [] => (d, [])
  | d, x :: l =>
    let r := c.feed d x
    let t := feedAll r.1 l
    (t.1, r.2.toList ++ t.2)

@[simp] theorem feedAll_nil (d : Decoder α) : c.feedAll d [] = (d, []) := rfl

theorem feedAll_append (d : Decoder α) (l m : List α) :
    c.feedAll d (l ++ m) =
      ((c.feedAll (c.feedAll d l).1 m).1, (c.feedAll d l).2 ++ (c.feedAll (c.feedAll d l).1 m).2) := by
  induction l generalizing d with
  | nil => simp
  | cons x l ih => simp only [List.cons_append, feedAll, ih, List.append_assoc]

/-! ### Stuffing -/

/-- Replacing the escape symbol and then the flag stuffs every symbol: the first replacement brings
    in no flag. -/
theorem replaceAll_replaceAll (l : List α) :
    replaceAll c.flag [c.esc, c.flagCode] (replaceAll c.esc [c.esc, c.escCode] l) = l.flatMap c.stuff := by
  induction l with
  | nil => rfl
  | cons x l ih =>
    simp only [replaceAll] at ih
    simp only [replaceAll, List.flatMap_cons, List.flatMap_append, ih]
    congr 1
    unfold stuff
    by_cases hx : x = c.esc
    · simp [hx, c.flag_ne_esc.symm, c.escCode_ne_flag]
    · by_cases hf : x = c.flag
      · simp [hf, c.flag_ne_esc]
      · simp [hx, hf]

theorem flag_notMem_stuff (x : α) : c.flag ∉ c.stuff x := by
  unfold stuff
  split
  · simp [c.flag_ne_esc, c.escCode_ne_flag.symm]
  · split
    · simp [c.flag_ne_esc, c.flagCode_ne_flag.symm]
    · rename_i h
      simpa using fun h' => h h'.symm

theorem flag_notMem_flatMap_stuff (l : List α) : c.flag ∉ l.flatMap c.stuff := by
  simp only [List.mem_flatMap, not_exists, not_and]
  exact fun x _ => c.flag_notMem_stuff x

/-! ### Decoding what was stuffed -/

theorem feedAll_stuff (buf : List α) (x : α) : c.feedAll ⟨buf, false⟩ (c.stuff x) = (⟨buf ++ [x], false⟩, []) := by
  unfold stuff
  split
  · rename_i h
    simp [feedAll, feed, unescape, c.flag_ne_esc.symm, c.escCode_ne_flagCode, h]
  · rename_i hesc
    split
    · rename_i h
      simp [feedAll, feed, unescape, c.flag_ne_esc.symm, h]
    · rename_i hflag
      simp [feedAll, feed, hesc, hflag]

/-- The stuffed form of `l` adds `l` to the unfinished frame and ends none. -/
theorem feedAll_flatMap_stuff (buf l : List α) :
    c.feedAll ⟨buf, false⟩ (l.flatMap c.stuff) = (⟨buf ++ l, false⟩, []) := by
  induction l generalizing buf with
  | nil => simp
  | cons x l ih =>
    rw [List.flatMap_cons, feedAll_append, feedAll_stuff]
    simp [ih]

/-- A stuffed message and its flag end exactly one frame, the message. -/
theorem feedAll_frame (buf l : List α) :
    c.feedAll ⟨buf, false⟩ (l.flatMap c.stuff ++ [c.flag]) = (⟨[], false⟩, [buf ++ l]) := by
  rw [feedAll_append, feedAll_flatMap_stuff]
  simp [feedAll, feed]

theorem feedAll_frames (ls : List (List α)) :
    c.feedAll ⟨[], false⟩ (ls.flatMap fun l => l.flatMap c.stuff ++ [c.flag]) = (⟨[], false⟩, ls) := by
  induction ls with
  | nil => rfl
  | cons l ls ih =>
    rw [List.flatMap_cons, feedAll_append, feedAll_frame]
    simp [ih]

/-! ### Decoding after noise -/

/-- A string without a flag that is read from its start, whatever came before. -/
theorem feedAll_flatMap_stuff_state (buf l : List α) :
    ∃ buf', (c.feedAll ⟨buf, false⟩ (l.flatMap c.stuff)).1 = ⟨buf', false⟩ :=
  ⟨buf ++ l, by rw [feedAll_flatMap_stuff]⟩

/-- An escape symbol before a stuffed symbol swallows its first half; the second half is no escape symbol. -/
theorem feedAll_stuff_escaped (hflag : c.flagCode ≠ c.esc) (hesc : c.escCode ≠ c.esc) (buf : List α) (x : α) :
    ∃ buf', (c.feedAll ⟨buf, true⟩ (c.stuff x)).1 = ⟨buf', false⟩ := by
  unfold stuff
  split
  · simp [feedAll, feed, c.escCode_ne_flag, hesc]
  · split
    · simp [feedAll, feed, c.flagCode_ne_flag, hflag]
    · simp [feedAll, feed]

/-- Whatever came before, the decoder is at the start of a frame when a frame has ended. -/
theorem feedAll_frame_state (hflag : c.flagCode ≠ c.esc) (hesc : c.escCode ≠ c.esc) (d : Decoder α) {l : List α}
    (hl : l ≠ []) : (c.feedAll d (l.flatMap c.stuff ++ [c.flag])).1 = ⟨[], false⟩ := by
  obtain ⟨buf', hbody⟩ : ∃ buf', (c.feedAll d (l.flatMap c.stuff)).1 = ⟨buf', false⟩ := by
    obtain ⟨buf, escaped⟩ := d
    cases escaped with
    | false => exact c.feedAll_flatMap_stuff_state buf l
    | true =>
      cases l with
      | nil => exact absurd rfl hl
      | cons x l =>
        obtain ⟨buf', hx⟩ := c.feedAll_stuff_escaped hflag hesc buf x
        rw [List.flatMap_cons, feedAll_append, hx]
        exact c.feedAll_flatMap_stuff_state buf' l
  rw [feedAll_append, hbody]
  simp [feedAll, feed]

end Code

end Stuffing
