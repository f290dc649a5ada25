import Avatar.Bintools.Mi
import Avatar.Lib.Lines

/-! # The thread that reads from gdb

A line is handled when it is complete, so that it should not matter how the output comes in pieces. It does in one place:
a prompt is taken for complete before its line has ended. When the next piece brings the end of the line, the thread sees
an empty line, and an empty line is no record. -/

namespace Avatar.Mi
open Bytes Lines StateExcept
variable {σ : Type} (dbg : Debugger σ)

/-- What is done with a line -/
def deliverLine (line : List Char) : MiM σ Unit :=
  if line = terminator then pure () else logged (addMsg dbg line)

/-- The lines, one after the other -/
def deliver (lines : List (List Char)) : MiM σ Unit := ForM.forM lines (deliverLine dbg)

/-- The value of `buffer` for an unfinished line -/
def keep (line : List Char) : List Char := if line = terminator then [] else line

/-- A piece of the output that is not the last one ends behind a prompt. -/
def cut : List Char → List (List Char) → Bool
  | _, [] => false
  | _, [_] => false
  | line, t :: u :: texts => unfinished '\n' line t = terminator || cut (unfinished '\n' line t) (u :: texts)

section Pieces
variable {dbg} {s s' : Mi σ}

theorem deliver_append (lines lines' : List (List Char)) :
    deliver dbg (lines ++ lines') = (deliver dbg lines >>= fun _ => deliver dbg lines') := by
  induction lines with
  | nil => exact (pure_bind _ _).symm
  | cons line lines ih =>
    show (deliverLine dbg line >>= fun _ => deliver dbg (lines ++ lines')) =
      ((deliverLine dbg line >>= fun _ => deliver dbg lines) >>= fun _ => deliver dbg lines')
    rw [ih, bind_assoc]

/-- The loop over a piece handles the lines that end in it. -/
theorem scan_eq {line data : List Char} (hdone : bareDone ∉ complete '\n' line data) :
    scan dbg line data = (deliver dbg (complete '\n' line data) >>= fun _ => pure (unfinished '\n' line data)) := by
  induction data generalizing line with
  | nil => exact (pure_bind _ _).symm
  | cons c data ih =>
    rw [complete] at hdone
    rw [scan, complete, unfinished]
    by_cases hc : c = '\n'
    · rw [if_pos hc] at hdone
      rw [if_pos hc, if_pos hc, if_pos hc]
      obtain ⟨hline, hlines⟩ := not_or.mp (mt List.mem_cons.mpr hdone)
      show _ = ((deliverLine dbg line >>= fun _ => deliver dbg (complete '\n' [] data)) >>= fun _ => _)
      rw [bind_assoc, deliverLine, ← ih hlines]
      by_cases hterminator : line = terminator
      · rw [if_pos hterminator, if_pos hterminator, pure_bind]
      · rw [if_neg hterminator, if_neg hterminator, if_neg (Ne.symm hline)]
    · rw [if_neg hc] at hdone
      rw [if_neg hc, if_neg hc, if_neg hc]
      exact ih hdone

theorem receive_eq {buffer data : List Char} (hbuffer : '\n' ∉ buffer) (hdone : bareDone ∉ complete '\n' buffer data) :
    receive dbg buffer data =
      (deliver dbg (complete '\n' buffer data) >>= fun _ => pure (keep (unfinished '\n' buffer data))) := by
  have hcomplete : complete '\n' [] (buffer ++ data) = complete '\n' buffer data := by
    rw [complete_append, complete_of_notMem hbuffer, unfinished_of_notMem hbuffer]
    rfl
  have hunfinished : unfinished '\n' [] (buffer ++ data) = unfinished '\n' buffer data := by
    rw [unfinished_append, unfinished_of_notMem hbuffer]
    rfl
  rw [← hcomplete] at hdone ⊢
  rw [receive, scan_eq hdone, hunfinished, bind_assoc]
  rfl

/-- An empty line ends the thread. -/
theorem receive_empty_line (data : List Char) : receive dbg [] ('\n' :: data) = throw .parseError := by
  have hline : logged (addMsg dbg []) = throw .parseError := rfl
  show (scan dbg [] ('\n' :: data) >>= fun msg => pure (if msg = terminator then [] else msg)) = _
  rw [scan, if_pos rfl, if_neg (by decide), if_neg (by decide), hline]
  rfl

theorem run_cons {buffer : List Char} {bytes : List Byte} {reads : List (List Byte)} {c : Char} {data : List Char}
    (hdecode : Ascii.decode bytes = some (c :: data)) :
    run dbg buffer (bytes :: reads) = (receive dbg buffer (c :: data) >>= fun buffer => run dbg buffer reads) := by
  funext s
  rw [run, bind_ok (lift_ok (show decode bytes = .ok (c :: data) by rw [decode, hdecode]) s), if_neg (List.cons_ne_nil _ _)]

/-- A single read, after which there is more to read -/
theorem run_read_ok {buffer data : List Char} {bytes : List Byte} (hdecode : Ascii.decode bytes = some data)
    (hne : data ≠ []) (hbuffer : '\n' ∉ buffer) (hdone : bareDone ∉ complete '\n' buffer data)
    (h : deliver dbg (complete '\n' buffer data) s = .ok () s') :
    run dbg buffer [bytes] s = .ok (some (keep (unfinished '\n' buffer data))) s' := by
  obtain ⟨c, data, rfl⟩ := List.exists_cons_of_ne_nil hne
  rw [run_cons hdecode, receive_eq hbuffer hdone, bind_assoc, bind_ok h]
  rfl

end Pieces

/-- Only a prompt begins with a prompt. -/
def PromptsEnd (lines : List (List Char)) : Prop := ∀ line ∈ lines, terminator <+: line → line = terminator

/-- What has come behind a prompt is the end of the line. -/
theorem eq_newline_of_promptsEnd {c : Char} {data : List Char}
    (h : PromptsEnd (complete '\n' terminator (c :: data) ++ [unfinished '\n' terminator (c :: data)])) : c = '\n' := by
  by_contra hc
  rw [complete, unfinished, if_neg hc, if_neg hc] at h
  obtain ⟨line, hline, hprefix⟩ := @exists_extension _ _ '\n' (terminator ++ [c]) data
  have heq := h line hline ((List.prefix_append _ _).trans hprefix)
  have hlen := hprefix.length_le
  rw [heq, List.length_append, List.length_singleton] at hlen
  omega

variable {dbg} {s s' : Mi σ}

/-- The lines are handled as they would be if they came one by one, or those that are complete before a piece ends behind a
    prompt. The next piece then ends the thread. -/
theorem run_pieces (dbg : Debugger σ) {line : List Char} {reads : List (List Byte)} {texts : List (List Char)}
    (hreads : List.Forall₂ (fun bytes text => Ascii.decode bytes = some text ∧ text ≠ []) reads texts)
    (hline : '\n' ∉ line) (hne : line ≠ terminator) (hdone : bareDone ∉ complete '\n' line texts.flatten)
    (hprompts : PromptsEnd (complete '\n' line texts.flatten ++ [unfinished '\n' line texts.flatten])) :
    ∃ lines, lines <+: complete '\n' line texts.flatten ∧
      (cut line texts = false → lines = complete '\n' line texts.flatten) ∧
      run dbg line reads = (deliver dbg lines >>= fun _ =>
        if cut line texts then throw .parseError else pure (some (keep (unfinished '\n' line texts.flatten)))) := by
  induction hreads generalizing line with
  | nil =>
    refine ⟨[], List.nil_prefix, fun _ => rfl, ?_⟩
    rw [cut, if_neg Bool.false_ne_true, keep, List.flatten_nil, unfinished, if_neg hne]
    rfl
  | @cons bytes text reads texts hread hreads ih =>
    obtain ⟨hdecode, hnonempty⟩ := hread
    obtain ⟨c, data, rfl⟩ := List.exists_cons_of_ne_nil hnonempty
    rw [List.flatten_cons, complete_append] at hdone
    rw [List.flatten_cons, complete_append, unfinished_append, List.append_assoc] at hprompts
    rw [List.flatten_cons, complete_append, unfinished_append]
    obtain ⟨hdone₁, hdone₂⟩ := not_or.mp (mt List.mem_append.mpr hdone)
    have hprompts₂ : PromptsEnd _ := fun l hl => hprompts l (List.mem_append_right _ hl)
    have hrun : run dbg line (bytes :: reads) = (deliver dbg (complete '\n' line (c :: data)) >>= fun _ =>
        run dbg (keep (unfinished '\n' line (c :: data))) reads) := by
      rw [run_cons hdecode, receive_eq hline hdone₁, bind_assoc]
      rfl
    cases hreads with
    | nil =>
      refine ⟨_, List.prefix_append _ _, fun _ => (List.append_nil _).symm, ?_⟩
      rw [hrun, cut, if_neg Bool.false_ne_true, List.flatten_nil, unfinished]
      rfl
    | @cons bytes' text' reads' texts' hread' hreads' =>
      rw [cut]
      by_cases hcut : unfinished '\n' line (c :: data) = terminator
      · -- The prompt is forgotten, and the next piece begins with the end of its line.
        rw [hcut] at hprompts₂ hrun
        obtain ⟨hdecode', hnonempty'⟩ := hread'
        obtain ⟨d, data', rfl⟩ := List.exists_cons_of_ne_nil hnonempty'
        rw [List.flatten_cons, List.cons_append] at hprompts₂
        rw [decide_eq_true hcut, Bool.true_or, if_pos rfl]
        refine ⟨_, List.prefix_append _ _, fun h => Bool.noConfusion h, ?_⟩
        rw [hrun, keep, if_pos rfl, run_cons hdecode', eq_newline_of_promptsEnd hprompts₂, receive_empty_line]
        rfl
      · obtain ⟨lines, hprefix, hwhole, hrest⟩ :=
          ih (sep_notMem_unfinished hline (c :: data)) hcut hdone₂ hprompts₂
        rw [decide_eq_false hcut, Bool.false_or]
        refine ⟨_, (List.prefix_append_right_inj _).mpr hprefix, fun h => by rw [hwhole h], ?_⟩
        rw [hrun, keep, if_neg hcut, hrest, deliver_append, bind_assoc]

/-- The pieces in which the output comes matter only in one place. If none that is not the last ends behind a prompt, the
    thread does with the lines what it would do if they came one by one. If one does, the thread ends with a `ParseError`,
    although every line could be handled. -/
theorem run_outcome {reads : List (List Byte)} {t : List (List Char)}
    (hreads : List.Forall₂ (fun bytes text => Ascii.decode bytes = some text ∧ text ≠ []) reads t)
    (hdone : bareDone ∉ complete '\n' [] t.flatten)
    (hprompts : PromptsEnd (complete '\n' [] t.flatten ++ [unfinished '\n' [] t.flatten]))
    (h : deliver dbg (complete '\n' [] t.flatten) s = .ok () s') :
    if cut [] t then ∃ s₁, run dbg [] reads s = .error .parseError s₁
    else run dbg [] reads s = .ok (some (keep (unfinished '\n' [] t.flatten))) s' := by
  obtain ⟨lines, ⟨rest, hrest⟩, hwhole, hrun⟩ := run_pieces dbg hreads List.not_mem_nil (by decide) hdone hprompts
  rw [hrun]
  cases hcut : cut [] t with
  | false =>
    rw [if_neg Bool.false_ne_true, hwhole hcut, bind_ok h]
    rfl
  | true =>
    rw [← hrest, deliver_append] at h
    cases h₁ : deliver dbg lines s with
    | ok _ s₁ => exact ⟨s₁, bind_ok h₁⟩
    | error e s₁ =>
      rw [bind_error h₁] at h
      cases h

/-- A line that cannot be handled ends the thread with what it raises, unless a prompt at the end of a piece has ended the
    thread before. -/
theorem run_outcome_error {reads : List (List Byte)} {t : List (List Char)} {e : MiError}
    (hreads : List.Forall₂ (fun bytes text => Ascii.decode bytes = some text ∧ text ≠ []) reads t)
    (hdone : bareDone ∉ complete '\n' [] t.flatten)
    (hprompts : PromptsEnd (complete '\n' [] t.flatten ++ [unfinished '\n' [] t.flatten]))
    (h : deliver dbg (complete '\n' [] t.flatten) s = .error e s') :
    run dbg [] reads s = .error e s' ∨ cut [] t ∧ ∃ s₁, run dbg [] reads s = .error .parseError s₁ := by
  obtain ⟨lines, ⟨rest, hrest⟩, hwhole, hrun⟩ := run_pieces dbg hreads List.not_mem_nil (by decide) hdone hprompts
  rw [hrun]
  cases hcut : cut [] t with
  | false =>
    rw [hwhole hcut]
    exact .inl (bind_error h)
  | true =>
    rw [← hrest, deliver_append] at h
    cases h₁ : deliver dbg lines s with
    | ok _ s₁ => exact .inr ⟨rfl, s₁, bind_ok h₁⟩
    | error e₁ s₁ =>
      rw [bind_error h₁] at h
      cases h
      exact .inl (bind_error h₁)

/-- Pieces of text, as the bytes that are read -/
theorem decode_pieces {texts : List (List Char)} (h : ∀ t ∈ texts, Ascii.IsAscii t ∧ t ≠ []) :
    List.Forall₂ (fun bytes text => Ascii.decode bytes = some text ∧ text ≠ [])
      (texts.map fun t => t.map Ascii.byte) texts := by
  induction texts with
  | nil => exact .nil
  | cons t texts ih =>
    obtain ⟨⟨hascii, hne⟩, htexts⟩ := List.forall_mem_cons.mp h
    exact .cons ⟨Ascii.decode_map_byte hascii, hne⟩ (ih htexts)

/-- A debugger that does nothing with what it gets -/
def silent : Debugger Unit := ⟨fun _ => pure (), fun _ => pure ()⟩

/-- The output is once cut in the result, and once behind the prompt. -/
theorem run_outcome_prompt :
    run silent [] ["(gdb) \n7^".toList.map Ascii.byte, "done\n".toList.map Ascii.byte] ⟨(), []⟩ =
        .ok (some []) ⟨(), [⟨7, .done, none⟩]⟩ ∧
      ∃ s₁, run silent [] ["(gdb) ".toList.map Ascii.byte, "\n7^done\n".toList.map Ascii.byte] ⟨(), []⟩ =
        .error .parseError s₁ := by
  have hprompts : PromptsEnd (complete '\n' [] "(gdb) \n7^done\n".toList ++ [unfinished '\n' [] "(gdb) \n7^done\n".toList]) := by
    unfold PromptsEnd
    decide
  have hlines : deliver silent (complete '\n' [] "(gdb) \n7^done\n".toList) ⟨(), []⟩ =
      .ok () ⟨(), [⟨7, .done, none⟩]⟩ := by
    have hcomplete : complete '\n' [] "(gdb) \n7^done\n".toList = [terminator, "7^done".toList] := by decide
    rw [hcomplete]
    rfl
  constructor
  · have h := run_outcome (t := ["(gdb) \n7^".toList, "done\n".toList])
      (decode_pieces (by decide)) (by decide) hprompts hlines
    rwa [if_neg (by decide)] at h
  · have h := run_outcome (t := ["(gdb) ".toList, "\n7^done\n".toList])
      (decode_pieces (by decide)) (by decide) hprompts hlines
    rwa [if_pos (by decide)] at h

end Avatar.Mi
