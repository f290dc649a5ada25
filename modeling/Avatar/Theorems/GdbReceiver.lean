import Avatar.Theorems.GdbPackets

/-! What ends the thread that receives GDB packets: behind the end marker of a packet it asserts that two hexadecimal
    digits follow, and a packet whose checksum is right is decoded as ASCII. Nothing else that a peer can send
    does. -/

namespace Avatar.GdbReceiver
open Bytes Traversal GdbLowlevelProtocol GdbPackets

/-- The value of a hexadecimal digit. -/
def hexValue (b : Byte) : Nat := (Numeral.digitValue (Ascii.char b)).getD 0

/-- What may stand behind the end marker of a packet: the beginning of another one, or the digits of a checksum,
    which is wrong unless the body can be decoded. -/
def Checked (body : List Byte) : List Byte → Prop
  | [] => True
  | [b] => b = startOfMessageMarker ∨ b ∈ hexCharacters
  | b :: c :: _ => b = startOfMessageMarker ∨ b ∈ hexCharacters ∧ (c = startOfMessageMarker ∨ c ∈ hexCharacters ∧
      (checksum body = 16 * hexValue b + hexValue c → ∀ x ∈ body, x.toNat < 128))

/-- Every packet in the bytes is checked. -/
def Harmless (bytes : List Byte) : Prop :=
  ∀ before body rest, bytes = before ++ startOfMessageMarker :: (body ++ endOfMessageMarker :: rest) →
    startOfMessageMarker ∉ body → endOfMessageMarker ∉ body → Checked body rest

/-! ### What is received is harmless -/

theorem int_hex : ∀ b ∈ hexCharacters, int [Ascii.char b] 16 = .ok (hexValue b : Int) ∧ hexValue b < 16 := by decide

/-- The first byte behind the end marker. -/
theorem next_inChecksum1 {s s' : RunState} (hs : s.state = .inChecksum1) {b : Byte} (h : s.next b = .ok s') :
    b = startOfMessageMarker ∨ b ∈ hexCharacters ∧
      s' = { s with received_checksum := (hexValue b <<< 4) &&& 0xF0, state := .inChecksum2 } := by
  by_cases hstart : b = startOfMessageMarker
  · exact .inl hstart
  · by_cases hb : b ∈ hexCharacters
    · rw [next_hex₁ hs hb (int_hex b hb).1] at h
      cases h
      exact .inr ⟨hb, rfl⟩
    · simp only [RunState.next, if_neg hstart, hs, if_neg hb] at h
      cases h

/-- The second byte behind the end marker. -/
theorem next_inChecksum2 {s s' : RunState} (hs : s.state = .inChecksum2) {b : Byte} (h : s.next b = .ok s') :
    b = startOfMessageMarker ∨ b ∈ hexCharacters ∧
      (checksum s.message = s.received_checksum ||| (hexValue b &&& 0x0F) → ∀ x ∈ s.message, x.toNat < 128) := by
  by_cases hstart : b = startOfMessageMarker
  · exact .inl hstart
  · by_cases hb : b ∈ hexCharacters
    · refine .inr ⟨hb, fun hsum => ?_⟩
      by_contra hascii
      have hdecode : decodeAscii s.message = .error .valueError := by
        rw [decodeAscii, Ascii.decode, if_neg hascii]
      simp only [RunState.next, if_neg hstart, hs, if_pos hb, (int_hex b hb).1, bind, Except.bind, Int.toNat_natCast,
        if_pos hsum, hdecode] at h
      cases h
    · simp only [RunState.next, if_neg hstart, hs, if_neg hb] at h
      cases h

theorem harmless_of_ok {bytes : List Byte} {s s' : RunState} (h : bytes.foldlM RunState.next s = .ok s') :
    Harmless bytes := by
  rintro before body rest rfl hstart hend
  obtain ⟨s₁, -, h⟩ := foldlM_append_eq_ok h
  rw [foldlM_cons_ok (next_start s₁), foldlM_append_ok (foldlM_body hstart hend rfl), foldlM_cons_ok (next_end rfl)]
    at h
  cases rest with
  | nil => exact trivial
  | cons b rest =>
    obtain ⟨s₂, hb, h⟩ := foldlM_cons_eq_ok h
    have hfirst := next_inChecksum1 rfl hb
    cases rest with
    | nil => exact hfirst.imp_right And.left
    | cons c rest =>
      refine hfirst.imp_right fun ⟨hhex, heq⟩ => ⟨hhex, ?_⟩
      obtain ⟨s₃, hc, -⟩ := foldlM_cons_eq_ok h
      subst heq
      refine (next_inChecksum2 rfl hc).imp_right fun ⟨hhex', hascii⟩ => ⟨hhex', fun hsum => hascii ?_⟩
      exact hsum.trans (checksum_bits _ (int_hex b hhex).2 _ (int_hex c hhex').2).symm

/-! ### What is harmless is received -/

theorem Checked.of_append {body rest : List Byte} {b : Byte} (h : Checked body (rest ++ [b])) :
    Checked body rest := by
  match rest, h with
  | [], _ => exact trivial
  | [_], h => exact h.imp_right And.left
  | _ :: _ :: _, h => exact h

theorem Harmless.of_append {bytes : List Byte} {b : Byte} (h : Harmless (bytes ++ [b])) : Harmless bytes := by
  rintro before body rest rfl hstart hend
  refine (h before body (rest ++ [b]) ?_ hstart hend).of_append
  simp only [List.append_assoc, List.cons_append]

/-- What the state says about the bytes that have been received. -/
inductive Describes (bytes : List Byte) (s : RunState) : Prop
  | idle (hs : s.state = .idle)
  | inMessage {before} (hs : s.state = .inMessage) (heq : bytes = before ++ startOfMessageMarker :: s.message)
    (hstart : startOfMessageMarker ∉ s.message) (hend : endOfMessageMarker ∉ s.message)
  | inChecksum1 {before} (hs : s.state = .inChecksum1)
    (heq : bytes = before ++ startOfMessageMarker :: (s.message ++ [endOfMessageMarker]))
    (hstart : startOfMessageMarker ∉ s.message) (hend : endOfMessageMarker ∉ s.message)
  | inChecksum2 {before b} (hs : s.state = .inChecksum2)
    (heq : bytes = before ++ startOfMessageMarker :: (s.message ++ endOfMessageMarker :: [b]))
    (hb : b ∈ hexCharacters) (hsum : s.received_checksum = (hexValue b <<< 4) &&& 0xF0)
    (hstart : startOfMessageMarker ∉ s.message) (hend : endOfMessageMarker ∉ s.message)

theorem notMem_append_singleton {α : Type} {l : List α} {a b : α} (h : a ∉ l) (hne : a ≠ b) : a ∉ l ++ [b] := by
  intro hmem
  rcases List.mem_append.mp hmem with hmem | hmem
  · exact h hmem
  · exact hne (List.mem_singleton.mp hmem)

/-- A byte that keeps the bytes harmless is received. -/
theorem next_describes {bytes : List Byte} {b : Byte} (hharmless : Harmless (bytes ++ [b])) {s : RunState}
    (h : Describes bytes s) : ∃ s', s.next b = .ok s' ∧ Describes (bytes ++ [b]) s' := by
  by_cases hstart : b = startOfMessageMarker
  · subst hstart
    exact ⟨_, next_start s, .inMessage rfl rfl List.not_mem_nil List.not_mem_nil⟩
  cases h with
  | idle hs => exact ⟨s, next_idle hs hstart, .idle hs⟩
  | @inMessage before hs heq hstart' hend' =>
    subst heq
    have hbytes : before ++ startOfMessageMarker :: s.message ++ [b] =
        before ++ startOfMessageMarker :: (s.message ++ [b]) := by simp
    by_cases hend : b = endOfMessageMarker
    · subst hend
      exact ⟨_, next_end hs, .inChecksum1 rfl hbytes hstart' hend'⟩
    · exact ⟨_, next_body hs hstart hend, .inMessage hs hbytes (notMem_append_singleton hstart' (Ne.symm hstart))
        (notMem_append_singleton hend' (Ne.symm hend))⟩
  | @inChecksum1 before hs heq hstart' hend' =>
    subst heq
    have hbytes : before ++ startOfMessageMarker :: (s.message ++ [endOfMessageMarker]) ++ [b] =
        before ++ startOfMessageMarker :: (s.message ++ endOfMessageMarker :: [b]) := by simp
    have hb : b ∈ hexCharacters := (hharmless before s.message [b] hbytes hstart' hend').resolve_left hstart
    exact ⟨_, next_hex₁ hs hb (int_hex b hb).1, .inChecksum2 rfl hbytes hb rfl hstart' hend'⟩
  | @inChecksum2 before c hs heq hc hsum hstart' hend' =>
    subst heq
    have hbytes : before ++ startOfMessageMarker :: (s.message ++ endOfMessageMarker :: [c]) ++ [b] =
        before ++ startOfMessageMarker :: (s.message ++ endOfMessageMarker :: [c, b]) := by simp
    have hchecked := (hharmless before s.message [c, b] hbytes hstart' hend').resolve_left (ne_start_of_hex c hc)
    obtain ⟨hb, hascii⟩ := hchecked.2.resolve_left hstart
    have hbits := checksum_bits _ (int_hex c hc).2 _ (int_hex b hb).2
    by_cases hmatch : checksum s.message = s.received_checksum ||| (hexValue b &&& 0x0F)
    · have hdecode : decodeAscii s.message = .ok (s.message.map Ascii.char) := by
        rw [decodeAscii, Ascii.decode, if_pos (hascii (by rw [hmatch, hsum, hbits]))]
      exact ⟨_, next_hex₂ hs hb (int_hex b hb).1 hmatch hdecode, .idle rfl⟩
    · refine ⟨⟨.idle, s.message, s.received_checksum ||| (hexValue b &&& 0x0F), s.sent ++ [Ascii.byte '-'],
        s.received⟩, ?_, .idle rfl⟩
      simp only [RunState.next, if_neg hstart, hs, if_pos hb, (int_hex b hb).1, bind, Except.bind,
        Int.toNat_natCast, if_neg hmatch]

theorem ok_of_harmless {bytes : List Byte} (h : Harmless bytes) :
    ∃ s, bytes.foldlM RunState.next .init = .ok s ∧ Describes bytes s := by
  induction bytes using List.reverseRecOn with
  | nil => exact ⟨.init, rfl, .idle rfl⟩
  | append_singleton bytes b ih =>
    obtain ⟨s, hrun, hs⟩ := ih h.of_append
    obtain ⟨s', hnext, hs'⟩ := next_describes h hs
    exact ⟨s', (foldlM_append_ok hrun _).trans (foldlM_cons_ok hnext []), hs'⟩

/-! ### The packet behind it -/

/-- After the chunks the thread still runs, and the last message that it has handed on is `message`. -/
def Survives (chunks : List (List Byte)) (message : List Char) : Prop :=
  ∃ s, run .init chunks = .ok s ∧ s.received.getLast? = some message

/-- Exactly the harmless bytes leave the thread able to receive the packet behind them. -/
theorem survives_iff {bytes packet : List Byte} {m : Payload} (hpacket : sendMessage m.text = .ok packet)
    {chunks : List (List Byte)} (hchunks : chunks.flatten = bytes ++ packet) :
    Survives chunks m.text ↔ Harmless bytes := by
  cases (lowlevel_sendMessage m).symm.trans hpacket
  rw [Survives, run_eq_foldlM, hchunks]
  constructor
  · rintro ⟨s, hrun, -⟩
    obtain ⟨s', hbytes, -⟩ := foldlM_append_eq_ok hrun
    exact harmless_of_ok hbytes
  · intro h
    obtain ⟨s, hrun, -⟩ := ok_of_harmless h
    refine ⟨_, (foldlM_append_ok hrun _).trans (foldlM_packet s m), ?_⟩
    exact List.getLast?_concat

/-- The message `c`, which lets the target run -/
def resume : Payload := ⟨['c'], by decide, by decide, by decide⟩

/-- An acknowledgement in front of the packet, in chunks that split both. -/
theorem survives_iff_ack : Survives [[0x2B, 0x24], [0x63, 0x23, 0x36], [0x33]] resume.text ↔ Harmless [0x2B] :=
  survives_iff (show sendMessage resume.text = .ok [0x24, 0x63, 0x23, 0x36, 0x33] from rfl) rfl

/-- The packet `$a#z`: the assertion on the first digit fails. -/
theorem not_survives : ¬Survives [[0x24, 0x61, 0x23, 0x7A], [0x24, 0x63, 0x23, 0x36, 0x33]] resume.text := by
  rintro ⟨s, hrun, -⟩
  have herror : run .init [[0x24, 0x61, 0x23, 0x7A], [0x24, 0x63, 0x23, 0x36, 0x33]] = .error .assertionError := rfl
  rw [herror] at hrun
  cases hrun

end Avatar.GdbReceiver
