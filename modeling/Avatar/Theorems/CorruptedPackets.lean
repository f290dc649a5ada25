import Avatar.Theorems.GdbPackets

/-! What packets with a wrong checksum do to the thread of the client that receives packets. It handles the packets of a
    stream one after the other; the handler of a checksum error raises itself, and a checksum that is no number raises
    in front of it, so the first such packet ends the thread. -/

namespace Avatar
open Bytes Traversal GdbProtocol GdbPackets

namespace CorruptedPackets

/-- A packet as it is received: what stands between the markers, and two characters -/
structure RawPacket where
  body : List Char
  high : Char
  low : Char
deriving DecidableEq, Repr

namespace RawPacket

def text (p : RawPacket) : List Char := '$' :: (p.body ++ ['#', p.high, p.low])

/-- The number that the two characters are in base sixteen -/
def received (p : RawPacket) : Option Nat :=
  (Numeral.digit 16 p.high).bind fun high => (Numeral.digit 16 p.low).map fun low => high * 16 + low

/-- The two characters are the checksum of the packet. -/
def Good (p : RawPacket) : Prop := p.received = some (GdbProtocol.checksum p.body)

instance (p : RawPacket) : Decidable p.Good := inferInstanceAs (Decidable (_ = _))

/-- How a packet should be answered -/
def answer (p : RawPacket) : Byte := if p.Good then Ascii.byte '+' else Ascii.byte '-'

/-- The response that a packet should give. An empty message is none. -/
def response (p : RawPacket) : Option (List Char) := if p.Good ∧ p.body ≠ [] then some p.body else none

end RawPacket

/-- The packets of a stream, from the left: each begins at the first start marker, and ends two characters behind the
    next end marker. -/
def rawPackets (s : List Char) : List RawPacket :=
  match _hstart : s.dropWhile (· ≠ '$') with
  | [] => []
  | _ :: rest =>
    match _hend : rest.dropWhile (· ≠ '#') with
    | _ :: high :: low :: behind => ⟨rest.takeWhile (· ≠ '#'), high, low⟩ :: rawPackets behind
    | _ => []
termination_by s.length
decreasing_by
  have hle := (List.dropWhile_suffix (p := (· ≠ '$')) (l := s)).length_le
  have hle' := (List.dropWhile_suffix (p := (· ≠ '#')) (l := rest)).length_le
  rw [_hstart] at hle
  rw [_hend] at hle'
  simp only [List.length_cons] at hle hle'
  omega

/-- The packets of a stream, by how it is put together -/
inductive Packets : List Char → List RawPacket → Prop
  | incomplete {s} (h : Incomplete s) : Packets s []
  | packet {pre p behind ps} (hpre : '$' ∉ pre) (hbody : '#' ∉ p.body) (h : Packets behind ps) :
    Packets (pre ++ (p.text ++ behind)) (p :: ps)

theorem eq_of_dropWhile_cons {c d : Char} {s rest : List Char} (h : s.dropWhile (· ≠ c) = d :: rest) :
    c ∉ s.takeWhile (· ≠ c) ∧ s = s.takeWhile (· ≠ c) ++ c :: rest := by
  have hd : d = c := by
    have hnot := List.head_dropWhile_not (· ≠ c) (by rw [h]; exact List.cons_ne_nil d rest)
    simp only [h, List.head_cons] at hnot
    simpa using hnot
  subst hd
  refine ⟨fun hmem => ?_, ?_⟩
  · simpa using List.mem_takeWhile_imp hmem
  · rw [← h, List.takeWhile_append_dropWhile]

theorem notMem_of_dropWhile_nil {c : Char} {s : List Char} (h : s.dropWhile (· ≠ c) = []) : c ∉ s := by
  intro hmem
  simpa using List.dropWhile_eq_nil_iff.mp h c hmem

theorem packets_rawPackets (s : List Char) : Packets s (rawPackets s) := by
  fun_induction rawPackets s with
  | case1 s hstart => exact .incomplete (.idle (notMem_of_dropWhile_nil hstart))
  | case2 s _ rest hstart _ high low behind hend ih =>
    obtain ⟨hpre, hs⟩ := eq_of_dropWhile_cons hstart
    obtain ⟨hbody, hrest⟩ := eq_of_dropWhile_cons hend
    have htext : s = s.takeWhile (· ≠ '$') ++
        ((RawPacket.mk (rest.takeWhile (· ≠ '#')) high low).text ++ behind) := by
      rw [RawPacket.text, List.cons_append, List.append_assoc]
      exact hs.trans (congrArg (fun t => s.takeWhile (· ≠ '$') ++ '$' :: t) hrest)
    rw [htext]
    exact .packet hpre hbody ih
  | case3 s _ rest hstart hend =>
    obtain ⟨hpre, hs⟩ := eq_of_dropWhile_cons hstart
    rw [hs]
    refine .incomplete ?_
    cases hdrop : rest.dropWhile (· ≠ '#') with
    | nil => exact .body hpre (notMem_of_dropWhile_nil hdrop)
    | cons d behind =>
      obtain ⟨hbody, hrest⟩ := eq_of_dropWhile_cons hdrop
      have hlength : behind.length < 2 := by
        match behind with
        | [] => decide
        | [_] => exact Nat.lt_succ_self 1
        | high :: low :: behind => exact absurd hdrop (hend _ _ _ _)
      rw [hrest]
      exact .checksum hpre hbody hlength

/-! ### The thread -/

section
variable {s data : List Char} (hdata : '$' ∉ data) (hascii : Ascii.IsAscii s)
include hdata hascii

theorem foldlM_recv_incomplete (h : Incomplete s) (sent : List Byte) (responses : List (List Char)) :
    (s.map Ascii.byte).foldlM ReceiveThread.recv ⟨data, sent, responses⟩ = .ok ⟨data ++ s, sent, responses⟩ := by
  have hfront {pre : List Char} (hpre : '$' ∉ pre) : '$' ∉ data ++ pre :=
    List.mem_append.not.mpr (not_or.mpr ⟨hdata, hpre⟩)
  cases h with
  | idle h => exact foldlM_recv_idle hascii hdata h sent responses
  | @body pre body hpre hbody =>
    obtain ⟨hpreAscii, hrestAscii⟩ := Ascii.isAscii_append.mp hascii
    have hbodyAscii := (List.forall_mem_cons.mp hrestAscii).2
    rw [List.map_append, foldlM_append_ok (foldlM_recv_idle hpreAscii hdata hpre sent responses),
      foldlM_recv_body (hfront hpre) hbody hbodyAscii, List.append_assoc]
  | @checksum pre body rest hpre hbody hrest =>
    obtain ⟨hpreAscii, hrestAscii⟩ := Ascii.isAscii_append.mp hascii
    obtain ⟨hbodyAscii, hendAscii⟩ := Ascii.isAscii_append.mp (List.forall_mem_cons.mp hrestAscii).2
    rw [List.map_append, foldlM_append_ok (foldlM_recv_idle hpreAscii hdata hpre sent responses),
      foldlM_recv_checksum (hfront hpre) hbody hbodyAscii hrest (List.forall_mem_cons.mp hendAscii).2,
      List.append_assoc]

end

/-- A packet is read to its end before anything is done with it. -/
theorem foldlM_recv_text {data pre : List Char} (hdata : '$' ∉ data) (hpre : '$' ∉ pre) {p : RawPacket}
    (hbody : '#' ∉ p.body) (hascii : Ascii.IsAscii (pre ++ p.text)) (sent : List Byte) (responses : List (List Char)) :
    ((pre ++ p.text).map Ascii.byte).foldlM ReceiveThread.recv ⟨data, sent, responses⟩ =
      afterPacket sent responses (parseMessage p.text) := by
  have hfront : '$' ∉ data ++ pre := List.mem_append.not.mpr (not_or.mpr ⟨hdata, hpre⟩)
  obtain ⟨hpreAscii, htextAscii⟩ := Ascii.isAscii_append.mp hascii
  obtain ⟨hbodyAscii, hendAscii⟩ := Ascii.isAscii_append.mp (List.forall_mem_cons.mp htextAscii).2
  have hhigh := hendAscii p.high (by simp)
  have hlow := hendAscii p.low (by simp)
  rw [List.map_append, foldlM_append_ok (foldlM_recv_idle hpreAscii hdata hpre sent responses), RawPacket.text,
    foldlM_recv_complete hfront hbody hbodyAscii hhigh hlow, scan_complete hfront hbody]

theorem parseMessage_of_good {p : RawPacket} (hbody : '#' ∉ p.body) (h : p.Good) :
    parseMessage p.text = .ok p.body := by
  obtain ⟨high, hhigh, hreceived⟩ := Option.bind_eq_some_iff.mp h
  obtain ⟨low, hlow, hchecksum⟩ := Option.map_eq_some_iff.mp hreceived
  have hdigits : '#' ∉ [p.high, p.low] := by
    intro hmem
    rcases List.mem_pair.mp hmem with heq | heq
    · rw [← heq] at hhigh
      cases hhigh
    · rw [← heq] at hlow
      cases hlow
  refine parseMessage_eq_ok hbody hdigits ?_
  rw [int, Numeral.parse_pair hhigh hlow, hchecksum]

theorem append_response {p : RawPacket} (h : p.Good) (responses : List (List Char)) (ps : List RawPacket) :
    (if p.body.isEmpty then responses else responses ++ [p.body]) ++ ps.filterMap RawPacket.response =
      responses ++ (p :: ps).filterMap RawPacket.response := by
  by_cases hempty : p.body = []
  · have hnone : p.response = none := if_neg fun hp => hp.2 hempty
    rw [List.filterMap_cons_none hnone, hempty]
    rfl
  · have hsome : p.response = some p.body := if_pos ⟨h, hempty⟩
    rw [List.filterMap_cons_some hsome, if_neg (mt List.isEmpty_iff.mp hempty), List.append_assoc]
    rfl

theorem run_of_good {s : List Char} {ps : List RawPacket} (h : Packets s ps) (hascii : Ascii.IsAscii s)
    (hgood : ∀ p ∈ ps, p.Good) {data : List Char} (hdata : '$' ∉ data) (sent : List Byte)
    (responses : List (List Char)) :
    ∃ data', (s.map Ascii.byte).foldlM ReceiveThread.recv ⟨data, sent, responses⟩ =
      .ok ⟨data', sent ++ ps.map RawPacket.answer, responses ++ ps.filterMap RawPacket.response⟩ := by
  induction h generalizing data sent responses with
  | @incomplete s h =>
    refine ⟨data ++ s, ?_⟩
    rw [foldlM_recv_incomplete hdata hascii h, List.map_nil, List.filterMap_nil, List.append_nil, List.append_nil]
  | @packet pre p behind ps hpre hbody h ih =>
    obtain ⟨hp, hps⟩ := List.forall_mem_cons.mp hgood
    rw [← List.append_assoc] at hascii
    obtain ⟨hfront, hbehind⟩ := Ascii.isAscii_append.mp hascii
    have hpacket := foldlM_recv_text hdata hpre hbody hfront sent responses
    rw [parseMessage_of_good hbody hp] at hpacket
    have hanswer : p.answer = Ascii.byte '+' := if_pos hp
    obtain ⟨data', hrest⟩ := ih hbehind hps (show '$' ∉ ['#'] by decide) (sent ++ [Ascii.byte '+'])
      (if p.body.isEmpty then responses else responses ++ [p.body])
    refine ⟨data', ?_⟩
    rw [← List.append_assoc, List.map_append, foldlM_append_ok hpacket, hrest, append_response hp, List.map_cons,
      hanswer, List.append_assoc]
    rfl

/-- A thread that has not ended has acknowledged every packet. -/
theorem sent_of_run {s : List Char} {ps : List RawPacket} (h : Packets s ps) (hascii : Ascii.IsAscii s)
    {data : List Char} (hdata : '$' ∉ data) {sent : List Byte} {responses : List (List Char)} {t : ReceiveThread}
    (hrun : (s.map Ascii.byte).foldlM ReceiveThread.recv ⟨data, sent, responses⟩ = .ok t) :
    t.sent = sent ++ ps.map fun _ => Ascii.byte '+' := by
  induction h generalizing data sent responses with
  | incomplete h =>
    rw [foldlM_recv_incomplete hdata hascii h] at hrun
    cases hrun
    exact (List.append_nil _).symm
  | @packet pre p behind ps hpre hbody h ih =>
    rw [← List.append_assoc] at hascii hrun
    obtain ⟨hfront, hbehind⟩ := Ascii.isAscii_append.mp hascii
    rw [List.map_append] at hrun
    obtain ⟨t', hpacket, hrun⟩ := foldlM_append_eq_ok hrun
    rw [foldlM_recv_text hdata hpre hbody hfront, afterPacket.eq_def] at hpacket
    split at hpacket
    · cases hpacket
      rw [ih hbehind (show '$' ∉ ['#'] by decide) hrun, List.append_assoc]
      rfl
    · cases hpacket
    · cases hpacket

/-! ### All streams -/

/-- A thread that has received a stream is still running. It has answered each packet by its checksum, and the
    responses are the messages of the packets with a right one, each once and in order. -/
def Survives (s : List Char) : Prop :=
  ∃ t, receiveThread .init (s.map Ascii.byte) = .ok t ∧ t.sent = (rawPackets s).map RawPacket.answer ∧
    t.responses = (rawPackets s).filterMap RawPacket.response

theorem survives_of_good {s : List Char} (hascii : Ascii.IsAscii s) (h : ∀ p ∈ rawPackets s, p.Good) : Survives s := by
  obtain ⟨data, hrun⟩ := run_of_good (packets_rawPackets s) hascii h List.not_mem_nil [] []
  exact ⟨_, hrun, rfl, rfl⟩

theorem good_of_survives {s : List Char} (hascii : Ascii.IsAscii s) (h : Survives s) : ∀ p ∈ rawPackets s, p.Good := by
  obtain ⟨t, hrun, hsent, -⟩ := h
  have hplus := hsent.symm.trans (sent_of_run (packets_rawPackets s) hascii List.not_mem_nil hrun)
  rw [List.nil_append] at hplus
  intro p hp
  have hanswer : p.answer = Ascii.byte '+' := List.map_inj_left.mp hplus p hp
  by_contra hbad
  rw [RawPacket.answer, if_neg hbad] at hanswer
  revert hanswer
  decide

/-- The thread survives a stream if the checksum of every packet is right: one that is wrong is not answered, and
    nothing is received behind it. -/
theorem survives_stream_iff {s : List Char} (h : Ascii.IsAscii s) :
    Survives s ↔ ∀ p ∈ rawPackets s, p.Good :=
  ⟨good_of_survives h, survives_of_good h⟩

theorem survives_stream_iff_ok : Survives "+$OK#9a".toList :=
  (survives_stream_iff (by decide)).mpr (by decide +kernel)

/-- A wrong checksum, and a packet behind it -/
theorem not_survives_corrupted : ¬ Survives "$a#00$OK#9a".toList := by
  rintro ⟨t, hrun, -⟩
  obtain ⟨t', hpacket, -⟩ := foldlM_append_eq_ok (l := ("$a#00".toList).map Ascii.byte) hrun
  have htext := foldlM_recv_text (show '$' ∉ [] by decide) (show '$' ∉ [] by decide)
    (show '#' ∉ RawPacket.body ⟨['a'], '0', '0'⟩ by decide) (by decide) [] []
  cases htext.symm.trans hpacket

end CorruptedPackets

end Avatar
