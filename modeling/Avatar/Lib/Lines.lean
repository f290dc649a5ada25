import Mathlib.Data.List.Basic

/-! The lines of a text that comes in pieces. A line is what stands in front of a separator, and the characters behind the
    last separator are an unfinished line. -/

namespace Lines
variable {α : Type} [DecidableEq α] (sep : α)

/-- The lines that end in a text, when some characters of the first line have come before -/
def complete : List α → List α → List (List α)
  | _, [] => []
  | line, c :: text => if c = sep then line :: complete [] text else complete (line ++ [c]) text

/-- The unfinished line behind a text -/
def unfinished : List α → List α → List α
  | line, [] => line
  | line, c :: text => if c = sep then unfinished [] text else unfinished (line ++ [c]) text

section Lemmas
variable {sep}

theorem complete_sep (line text : List α) : complete sep line (sep :: text) = line :: complete sep [] text := by
  rw [complete, if_pos rfl]

theorem unfinished_sep (line text : List α) : unfinished sep line (sep :: text) = unfinished sep [] text := by
  rw [unfinished, if_pos rfl]

theorem complete_append (line s t : List α) :
    complete sep line (s ++ t) = complete sep line s ++ complete sep (unfinished sep line s) t := by
  induction s generalizing line with
  | nil => rfl
  | cons c s ih =>
    rw [List.cons_append, complete, complete, unfinished]
    split
    · rw [ih, List.cons_append]
    · exact ih _

theorem unfinished_append (line s t : List α) :
    unfinished sep line (s ++ t) = unfinished sep (unfinished sep line s) t := by
  induction s generalizing line with
  | nil => rfl
  | cons c s ih =>
    rw [List.cons_append, unfinished, unfinished]
    split
    · exact ih _
    · exact ih _

/-- A text without a separator goes on with the line. -/
theorem complete_of_notMem {s : List α} (h : sep ∉ s) (line : List α) : complete sep line s = [] := by
  induction s generalizing line with
  | nil => rfl
  | cons c s ih =>
    obtain ⟨hc, hs⟩ := not_or.mp (mt List.mem_cons.mpr h)
    rw [complete, if_neg (Ne.symm hc), ih hs]

theorem unfinished_of_notMem {s : List α} (h : sep ∉ s) (line : List α) : unfinished sep line s = line ++ s := by
  induction s generalizing line with
  | nil => exact (List.append_nil line).symm
  | cons c s ih =>
    obtain ⟨hc, hs⟩ := not_or.mp (mt List.mem_cons.mpr h)
    rw [unfinished, if_neg (Ne.symm hc), ih hs, List.append_assoc]
    rfl

/-- A line with its separator is one line. -/
theorem complete_line {line : List α} (h : sep ∉ line) : complete sep [] (line ++ [sep]) = [line] := by
  rw [complete_append, complete_of_notMem h, unfinished_of_notMem h, List.nil_append, complete_sep]
  rfl

theorem unfinished_line {line : List α} (h : sep ∉ line) : unfinished sep [] (line ++ [sep]) = [] := by
  rw [unfinished_append, unfinished_of_notMem h, List.nil_append, unfinished_sep]
  rfl

theorem sep_notMem_unfinished {line : List α} (h : sep ∉ line) (s : List α) : sep ∉ unfinished sep line s := by
  induction s generalizing line with
  | nil => exact h
  | cons c s ih =>
    rw [unfinished]
    split
    · exact ih List.not_mem_nil
    · next hc =>
      refine ih fun hmem => ?_
      rcases List.mem_append.mp hmem with hmem | hmem
      · exact h hmem
      · exact hc (List.mem_singleton.mp hmem).symm

/-- What has come of a line is the beginning of a line in the end, finished or not. -/
theorem exists_extension (line s : List α) : ∃ l ∈ complete sep line s ++ [unfinished sep line s], line <+: l := by
  induction s generalizing line with
  | nil => exact ⟨line, List.mem_singleton_self line, List.prefix_rfl⟩
  | cons c s ih =>
    rw [complete, unfinished]
    split
    · exact ⟨line, .head _, List.prefix_rfl⟩
    · obtain ⟨l, hl, hprefix⟩ := ih (line ++ [c])
      exact ⟨l, hl, (List.prefix_append line [c]).trans hprefix⟩

end Lemmas

end Lines
