import Avatar.Lib.Traversal
import Avatar.Gdb.Protocol

/-! The two implementations of the GDB packet format write the same packets, and each receives what the other
    has sent. The state machine gets them in chunks of any sizes; the buffer of the other keeps what stands before a
    packet, the end marker of the last packet among it, until that packet is complete. -/

namespace Avatar.GdbPackets
open Bytes Traversal GdbLowlevelProtocol GdbProtocol

/-- A message that fits into a packet. -/
structure Payload where
  text : List Char
  isAscii : Ascii.IsAscii text
  start_notMem : '$' ∉ text
  end_notMem : '#' ∉ text

namespace Payload

def bytes (m : Payload) : List Byte := m.text.map Ascii.byte

/-- The digits behind the end marker. -/
def digits (m : Payload) : List Char := Numeral.hex2 (GdbLowlevelProtocol.checksum m.bytes)

def packet (m : Payload) : List Byte :=
  startOfMessageMarker :: (m.bytes ++ endOfMessageMarker :: m.digits.map Ascii.byte)

end Payload

/-! ### Sending -/

theorem foldl_lt {α : Type} {f : Nat → α → Nat} (hf : ∀ r x, f r x < 256) (l : List α) {r : Nat} (hr : r < 256) :
    l.foldl f r < 256 := by
  induction l generalizing r with
  | nil => exact hr
  | cons x l ih => exact ih (hf r x)

theorem and_255 (n : Nat) : n &&& 0xFF = n % 256 := Nat.and_two_pow_sub_one_eq_mod n 8

theorem checksum_lt (message : List Byte) : GdbLowlevelProtocol.checksum message < 256 := by
  refine foldl_lt (fun r x => ?_) message (by decide)
  rw [and_255]
  exact Nat.mod_lt _ (by decide)

/-- The sums over the characters and over the bytes are the same. -/
theorem foldl_map_byte {text : List Char} (h : Ascii.IsAscii text) (r : Nat) :
    (text.map Ascii.byte).foldl (fun r x => (r + x.toNat) &&& 0xFF) r =
      text.foldl (fun x y => (x + y.toNat) % 256) r := by
  induction text generalizing r with
  | nil => rfl
  | cons c text ih =>
    obtain ⟨hc, htext⟩ := List.forall_mem_cons.mp h
    rw [List.map_cons, List.foldl_cons, List.foldl_cons, ih htext, Ascii.toNat_byte hc, and_255]

theorem checksum_bytes (m : Payload) : GdbLowlevelProtocol.checksum m.bytes = GdbProtocol.checksum m.text :=
  foldl_map_byte m.isAscii 0

theorem digits_eq (m : Payload) : ∃ high < 16, ∃ low < 16, m.digits = [high.digitChar, low.digitChar] ∧
    GdbLowlevelProtocol.checksum m.bytes = 16 * high + low := by
  have hlt := checksum_lt m.bytes
  exact ⟨_, by omega, _, Nat.mod_lt _ (by decide), Numeral.hex2_of_lt hlt, (Nat.div_add_mod _ 16).symm⟩

theorem toNat_digitChar_lt : ∀ d < 16, d.digitChar.toNat < 128 := by decide

theorem isAscii_hex2 {n : Nat} (h : n < 256) : Ascii.IsAscii (Numeral.hex2 n) := by
  rw [Numeral.hex2_of_lt h]
  intro c hc
  rcases List.mem_pair.mp hc with rfl | rfl
  · exact toNat_digitChar_lt _ (Nat.div_lt_of_lt_mul h)
  · exact toNat_digitChar_lt _ (Nat.mod_lt _ (by decide))

theorem encodeAscii_eq {text : List Char} (h : Ascii.IsAscii text) :
    encodeAscii text = .ok (text.map Ascii.byte) := by
  rw [encodeAscii, Ascii.encode_of_isAscii h]

theorem decodeAscii_eq {text : List Char} (h : Ascii.IsAscii text) :
    decodeAscii (text.map Ascii.byte) = .ok text := by
  rw [decodeAscii, Ascii.decode_map_byte h]

theorem sendMessage_isAscii {text : List Char} (h : Ascii.IsAscii text) : GdbLowlevelProtocol.sendMessage text =
    .ok (startOfMessageMarker :: (text.map Ascii.byte ++ endOfMessageMarker ::
      (Numeral.hex2 (GdbLowlevelProtocol.checksum (text.map Ascii.byte))).map Ascii.byte)) := by
  have hchecksum : Ascii.IsAscii ('#' :: Numeral.hex2 (GdbLowlevelProtocol.checksum (text.map Ascii.byte))) :=
    List.forall_mem_cons.mpr ⟨by decide, isAscii_hex2 (checksum_lt _)⟩
  simp only [GdbLowlevelProtocol.sendMessage, encodeAscii_eq h, encodeAscii_eq hchecksum, bind, Except.bind]
  rfl

theorem lowlevel_sendMessage (m : Payload) : GdbLowlevelProtocol.sendMessage m.text = .ok m.packet :=
  sendMessage_isAscii m.isAscii

/-- Without an initial value the sum starts with the first character, and it starts there anyway. -/
theorem sendMessage_eq {m : Payload} (h : m.text ≠ []) : GdbProtocol.sendMessage m.text = .ok m.packet := by
  have htext : Ascii.IsAscii ("$".toList ++ m.text ++ "#".toList ++ m.digits) := by
    simp only [Ascii.isAscii_append]
    exact ⟨⟨⟨by decide, m.isAscii⟩, by decide⟩, isAscii_hex2 (checksum_lt _)⟩
  have hdigits : m.digits = Numeral.hex2 (GdbProtocol.checksum m.text) := by
    rw [← checksum_bytes]
    rfl
  obtain ⟨c, rest, heq⟩ := List.exists_cons_of_ne_nil h
  have hc : c.toNat < 128 := m.isAscii c (heq ▸ .head _)
  have hsum : GdbProtocol.checksum m.text = rest.foldl (fun x y => (x + y.toNat) % 256) c.toNat := by
    rw [GdbProtocol.checksum, heq, List.foldl_cons, Nat.zero_add, Nat.mod_eq_of_lt (by omega)]
  rw [hdigits, hsum] at htext
  rw [heq, GdbProtocol.sendMessage, ← heq, encodeAscii_eq htext, ← hsum, ← hdigits]
  simp only [Payload.packet, Payload.bytes, List.map_append, List.append_assoc]
  rfl

/-! ### The state machine -/

/-- Where the chunks end does not matter. -/
theorem run_eq_foldlM (s : RunState) (chunks : List (List Byte)) :
    run s chunks = chunks.flatten.foldlM RunState.next s := (foldlM_flatten _ _ _).symm

theorem next_start (s : RunState) :
    s.next startOfMessageMarker = .ok { s with state := .inMessage, message := [] } := if_pos rfl

theorem next_body {s : RunState} (hs : s.state = .inMessage) {b : Byte} (hstart : b ≠ startOfMessageMarker)
    (hend : b ≠ endOfMessageMarker) : s.next b = .ok { s with message := s.message ++ [b] } := by
  simp only [RunState.next, if_neg hstart, hs, if_neg hend]

theorem next_end {s : RunState} (hs : s.state = .inMessage) :
    s.next endOfMessageMarker = .ok { s with state := .inChecksum1 } := by
  simp only [RunState.next, hs, if_neg (show endOfMessageMarker ≠ startOfMessageMarker by decide), if_true]

theorem next_idle {s : RunState} (hs : s.state = .idle) {b : Byte} (hstart : b ≠ startOfMessageMarker) :
    s.next b = .ok s := by
  simp only [RunState.next, if_neg hstart, hs]

theorem foldlM_body {body : List Byte} (hstart : startOfMessageMarker ∉ body) (hend : endOfMessageMarker ∉ body)
    {s : RunState} (hs : s.state = .inMessage) :
    body.foldlM RunState.next s = .ok { s with message := s.message ++ body } := by
  induction body generalizing s with
  | nil => rw [List.append_nil]; rfl
  | cons b body ih =>
    obtain ⟨hb, hbody⟩ := not_or.mp (mt List.mem_cons.mpr hstart)
    obtain ⟨hb', hbody'⟩ := not_or.mp (mt List.mem_cons.mpr hend)
    rw [foldlM_cons_ok (next_body hs (Ne.symm hb) (Ne.symm hb'))]
    have hs' : ({ s with message := s.message ++ [b] } : RunState).state = .inMessage := hs
    rw [ih hbody hbody' hs', List.append_assoc]
    rfl

theorem ne_start_of_hex : ∀ b ∈ hexCharacters, b ≠ startOfMessageMarker := by decide

theorem digitChar_mem_hex : ∀ d < 16, Ascii.byte d.digitChar ∈ hexCharacters := by decide

theorem int_digitChar {d : Nat} (h : d < 16) : int [Ascii.char (Ascii.byte d.digitChar)] 16 = .ok d := by
  have hparse : Numeral.parse 16 [d.digitChar] = some (d : Int) := by
    rw [← Nat.toDigits_of_lt_base h]
    exact Numeral.parse_hex d
  rw [Ascii.char_byte (toNat_digitChar_lt d h), int, hparse]

theorem checksum_bits : ∀ high < 16, ∀ low < 16,
    ((high <<< 4) &&& 0xF0) ||| (low &&& 0x0F) = 16 * high + low := by decide

theorem next_hex₁ {s : RunState} (hs : s.state = .inChecksum1) {b : Byte} (hb : b ∈ hexCharacters) {d : Nat}
    (hd : int [Ascii.char b] 16 = .ok d) :
    s.next b = .ok { s with received_checksum := (d <<< 4) &&& 0xF0, state := .inChecksum2 } := by
  simp only [RunState.next, if_neg (ne_start_of_hex b hb), hs, if_pos hb, hd, bind, Except.bind, Int.toNat_natCast]

theorem next_hex₂ {s : RunState} (hs : s.state = .inChecksum2) {b : Byte} (hb : b ∈ hexCharacters) {d : Nat}
    (hd : int [Ascii.char b] 16 = .ok d) {text : List Char}
    (hsum : GdbLowlevelProtocol.checksum s.message = s.received_checksum ||| (d &&& 0x0F))
    (htext : decodeAscii s.message = .ok text) : s.next b =
      .ok ⟨.idle, s.message, s.received_checksum ||| (d &&& 0x0F), s.sent ++ [Ascii.byte '+'],
        s.received ++ [text]⟩ := by
  simp only [RunState.next, if_neg (ne_start_of_hex b hb), hs, if_pos hb, hd, bind, Except.bind, Int.toNat_natCast,
    if_pos hsum, htext]

theorem marker_notMem_bytes (m : Payload) :
    startOfMessageMarker ∉ m.bytes ∧ endOfMessageMarker ∉ m.bytes :=
  ⟨mt (Ascii.byte_mem_map m.isAscii (by decide)).mp m.start_notMem,
    mt (Ascii.byte_mem_map m.isAscii (by decide)).mp m.end_notMem⟩

/-- A packet is received in whatever state it finds the machine. -/
theorem foldlM_packet (s : RunState) (m : Payload) : m.packet.foldlM RunState.next s =
    .ok ⟨.idle, m.bytes, GdbLowlevelProtocol.checksum m.bytes, s.sent ++ [Ascii.byte '+'],
      s.received ++ [m.text]⟩ := by
  obtain ⟨high, hhigh, low, hlow, hdigits, hsum⟩ := digits_eq m
  obtain ⟨hstart, hend⟩ := marker_notMem_bytes m
  have hbits := checksum_bits high hhigh low hlow
  rw [Payload.packet, hdigits, foldlM_cons_ok (next_start s), foldlM_append_ok (foldlM_body hstart hend rfl),
    foldlM_cons_ok (next_end rfl), List.map_cons, foldlM_cons_ok (next_hex₁ rfl (digitChar_mem_hex high hhigh)
      (int_digitChar hhigh)), List.map_cons, foldlM_cons_ok (next_hex₂ rfl (digitChar_mem_hex low hlow)
      (int_digitChar hlow) (hsum.trans hbits.symm) (decodeAscii_eq m.isAscii)), hsum, ← hbits]
  rfl

/-! ### The buffer -/

theorem idxOf?_append_cons {c : Char} {pre : List Char} (h : c ∉ pre) (rest : List Char) :
    (pre ++ c :: rest).idxOf? c = some pre.length := by
  induction pre with
  | nil => simp [List.idxOf?_cons]
  | cons d pre ih =>
    obtain ⟨hd, hpre⟩ := not_or.mp (mt List.mem_cons.mpr h)
    rw [List.cons_append, List.idxOf?_cons, ih hpre, if_neg (by simpa using Ne.symm hd)]
    rfl

theorem find_start {pre : List Char} (h : '$' ∉ pre) (rest : List Char) :
    find (pre ++ '$' :: rest) '$' 0 = some pre.length := by
  rw [find, List.drop_zero, idxOf?_append_cons h, Option.map_some, Nat.zero_add]

theorem find_end {body : List Char} (h : '#' ∉ body) (pre rest : List Char) :
    find (pre ++ '$' :: (body ++ '#' :: rest)) '#' pre.length = some (pre.length + (body.length + 1)) := by
  have hbody : '#' ∉ '$' :: body := by
    intro hmem
    rcases List.mem_cons.mp hmem with heq | hmem
    · cases heq
    · exact h hmem
  rw [find, List.drop_left, ← List.cons_append, idxOf?_append_cons hbody, Option.map_some]
  rfl

/-- A buffer in which no packet is complete. -/
inductive Incomplete : List Char → Prop
  | idle {pre} (h : '$' ∉ pre) : Incomplete pre
  | body {pre body} (h : '$' ∉ pre) (hbody : '#' ∉ body) : Incomplete (pre ++ '$' :: body)
  | checksum {pre body rest} (h : '$' ∉ pre) (hbody : '#' ∉ body) (hrest : rest.length < 2) :
    Incomplete (pre ++ '$' :: (body ++ '#' :: rest))

theorem scan_of_incomplete {data : List Char} (h : Incomplete data) (sent : List Byte)
    (responses : List (List Char)) :
    ReceiveThread.scan ⟨data, sent, responses⟩ = .ok ⟨data, sent, responses⟩ := by
  rw [ReceiveThread.scan]
  cases h with
  | idle h =>
    have hfind : find data '$' 0 = none := by
      rw [find, List.drop_zero, List.idxOf?_eq_none_iff.mpr h]
      rfl
    rw [hfind]
  | @body pre body h hbody =>
    have hfind : find (pre ++ '$' :: body) '#' pre.length = none := by
      have hnot : '#' ∉ '$' :: body := by
        intro hmem
        rcases List.mem_cons.mp hmem with heq | hmem
        · cases heq
        · exact hbody hmem
      rw [find, List.drop_left, List.idxOf?_eq_none_iff.mpr hnot]
      rfl
    simp only [find_start h, hfind]
  | @checksum pre body rest h hbody hrest =>
    simp only [find_start h, find_end hbody]
    rw [dif_pos]
    simp only [List.length_append, List.length_cons]
    omega

theorem recv_eq {c : Char} (hc : c.toNat < 128) (data : List Char) (sent : List Byte)
    (responses : List (List Char)) : ReceiveThread.recv ⟨data, sent, responses⟩ (Ascii.byte c) =
      ReceiveThread.scan ⟨data ++ [c], sent, responses⟩ := by
  have hdecode : decodeAscii [Ascii.byte c] = .ok [c] := decodeAscii_eq (List.forall_mem_singleton.mpr hc)
  rw [ReceiveThread.recv, hdecode]
  rfl

theorem recv_incomplete {c : Char} (hc : c.toNat < 128) {data : List Char} (h : Incomplete (data ++ [c]))
    (sent : List Byte) (responses : List (List Char)) :
    ReceiveThread.recv ⟨data, sent, responses⟩ (Ascii.byte c) = .ok ⟨data ++ [c], sent, responses⟩ := by
  rw [recv_eq hc, scan_of_incomplete h]

theorem receiveThread_body {pre body : List Char} (hpre : '$' ∉ pre) (hbody : '#' ∉ body) (hascii : Ascii.IsAscii body)
    {done : List Char} (hdone : '#' ∉ done) (sent : List Byte) (responses : List (List Char)) :
    (body.map Ascii.byte).foldlM ReceiveThread.recv ⟨pre ++ '$' :: done, sent, responses⟩ =
      .ok ⟨pre ++ '$' :: (done ++ body), sent, responses⟩ := by
  induction body generalizing done with
  | nil => rw [List.append_nil]; rfl
  | cons c body ih =>
    obtain ⟨hc, hbody⟩ := not_or.mp (mt List.mem_cons.mpr hbody)
    obtain ⟨hcascii, hascii⟩ := List.forall_mem_cons.mp hascii
    have hdone' : '#' ∉ done ++ [c] := by
      intro hmem
      rcases List.mem_append.mp hmem with hmem | hmem
      · exact hdone hmem
      · exact hc (List.mem_singleton.mp hmem)
    have hdata : pre ++ '$' :: done ++ [c] = pre ++ '$' :: (done ++ [c]) := by simp
    have hincomplete : Incomplete (pre ++ '$' :: done ++ [c]) := by
      rw [hdata]
      exact .body hpre hdone'
    have hrecv := recv_incomplete hcascii hincomplete sent responses
    rw [List.map_cons, foldlM_cons_ok hrecv, hdata, ih hbody hascii hdone', List.append_assoc]
    rfl

theorem parseMessage_eq_ok {body digits : List Char} (hbody : '#' ∉ body) (hdigits : '#' ∉ digits)
    (hint : int digits 16 = .ok (GdbProtocol.checksum body)) :
    parseMessage ('$' :: (body ++ '#' :: digits)) = .ok body := by
  have hstart : '#' ∉ '$' :: body := by
    intro hmem
    rcases List.mem_cons.mp hmem with heq | hmem
    · cases heq
    · exact hbody hmem
  have hparts : ('$' :: (body ++ '#' :: digits)).splitOn '#' = ['$' :: body, digits] := by
    rw [← List.cons_append, List.splitOn_append_cons_self_of_not_mem hstart, List.splitOn_eq_singleton hdigits]
  simp only [parseMessage, hparts, List.getElem?_cons_zero, List.getElem?_cons_succ, List.drop_succ_cons,
    List.drop_zero, bind, Except.bind, hint, ne_eq, not_true_eq_false, if_false]

theorem parseMessage_packet (m : Payload) : parseMessage ('$' :: (m.text ++ '#' :: m.digits)) = .ok m.text := by
  have hdigits : '#' ∉ m.digits := by
    obtain ⟨high, hhigh, low, hlow, heq, -⟩ := digits_eq m
    rw [heq]
    intro hmem
    rcases List.mem_pair.mp hmem with hmem | hmem
    · exact Numeral.digitChar_ne hhigh rfl hmem.symm
    · exact Numeral.digitChar_ne hlow rfl hmem.symm
  refine parseMessage_eq_ok m.end_notMem hdigits ?_
  rw [int, Payload.digits, Numeral.parse_hex2 (checksum_lt _), checksum_bytes]

/-- What the thread makes of a complete packet: it is taken out of the buffer, and its end marker stays, or the thread
    ends. -/
def afterPacket (sent : List Byte) (responses : List (List Char)) :
    Except ParseError (List Char) → Except PyException ReceiveThread
  | .ok resp => .ok ⟨['#'], sent ++ [Ascii.byte '+'], if resp.isEmpty then responses else responses ++ [resp]⟩
  | .error .gdbChecksumError => .error .attributeError
  | .error (.python e) => .error e

theorem scan_complete {pre body : List Char} (hpre : '$' ∉ pre) (hbody : '#' ∉ body) (c d : Char) (sent : List Byte)
    (responses : List (List Char)) : ReceiveThread.scan ⟨pre ++ '$' :: (body ++ ['#', c, d]), sent, responses⟩ =
      afterPacket sent responses (parseMessage ('$' :: (body ++ ['#', c, d]))) := by
  have hslice : slice (pre ++ '$' :: (body ++ ['#', c, d])) pre.length (pre.length + (body.length + 1) + 3) =
      '$' :: (body ++ ['#', c, d]) := by
    rw [slice, List.take_of_length_le, List.drop_left]
    simp only [List.length_append, List.length_cons, List.length_nil]
    omega
  have hend : ∀ h : pre.length + (body.length + 1) < (pre ++ '$' :: (body ++ ['#', c, d])).length,
      (pre ++ '$' :: (body ++ ['#', c, d]))[pre.length + (body.length + 1)] = '#' := by
    intro h
    rw [List.getElem_eq_iff, List.getElem?_append_right (by omega), Nat.add_sub_cancel_left, List.getElem?_cons_succ,
      List.getElem?_append_right (Nat.le_refl _), Nat.sub_self]
    rfl
  rw [ReceiveThread.scan]
  simp only [find_start hpre, find_end hbody]
  rw [dif_neg, hslice]
  · cases parseMessage ('$' :: (body ++ ['#', c, d])) with
    | ok resp =>
      simp only [hend]
      exact scan_of_incomplete (.idle (by decide)) _ _
    | error e => cases e <;> rfl
  · simp only [List.length_append, List.length_cons, List.length_nil]
    omega

/-! #### Characters, one after the other -/

theorem foldlM_recv_idle {text data : List Char} (hascii : Ascii.IsAscii text) (hdata : '$' ∉ data) (htext : '$' ∉ text)
    (sent : List Byte) (responses : List (List Char)) :
    (text.map Ascii.byte).foldlM ReceiveThread.recv ⟨data, sent, responses⟩ = .ok ⟨data ++ text, sent, responses⟩ := by
  induction text generalizing data with
  | nil => rw [List.append_nil]; rfl
  | cons c text ih =>
    obtain ⟨hc, hascii⟩ := List.forall_mem_cons.mp hascii
    obtain ⟨hne, htext⟩ := not_or.mp (mt List.mem_cons.mpr htext)
    have hdata' : '$' ∉ data ++ [c] := by
      intro hmem
      rcases List.mem_append.mp hmem with hmem | hmem
      · exact hdata hmem
      · exact hne (List.mem_singleton.mp hmem)
    rw [List.map_cons, foldlM_cons_ok (recv_incomplete hc (.idle hdata') sent responses), ih hascii hdata' htext,
      List.append_assoc]
    rfl

section Packet
variable {pre body : List Char} (hpre : '$' ∉ pre) (hbody : '#' ∉ body) (hascii : Ascii.IsAscii body)
include hpre hbody hascii

theorem foldlM_recv_body (sent : List Byte) (responses : List (List Char)) :
    (('$' :: body).map Ascii.byte).foldlM ReceiveThread.recv ⟨pre, sent, responses⟩ =
      .ok ⟨pre ++ '$' :: body, sent, responses⟩ := by
  have hstart := recv_incomplete (c := '$') (by decide) (.body hpre List.not_mem_nil) sent responses
  rw [List.map_cons, foldlM_cons_ok hstart, receiveThread_body hpre hbody hascii List.not_mem_nil, List.nil_append]

theorem foldlM_recv_checksum {rest : List Char} (hrest : rest.length < 2) (hascii' : Ascii.IsAscii rest)
    (sent : List Byte) (responses : List (List Char)) :
    (('$' :: (body ++ '#' :: rest)).map Ascii.byte).foldlM ReceiveThread.recv ⟨pre, sent, responses⟩ =
      .ok ⟨pre ++ '$' :: (body ++ '#' :: rest), sent, responses⟩ := by
  have hsplit : ('$' :: (body ++ '#' :: rest)).map Ascii.byte =
      ('$' :: body).map Ascii.byte ++ (Ascii.byte '#' :: rest.map Ascii.byte) := by simp
  have hend : ReceiveThread.recv ⟨pre ++ '$' :: body, sent, responses⟩ (Ascii.byte '#') =
      .ok ⟨pre ++ '$' :: (body ++ ['#']), sent, responses⟩ := by
    have heq : pre ++ '$' :: body ++ ['#'] = pre ++ '$' :: (body ++ ['#']) := by simp
    rw [recv_eq (by decide), heq]
    exact scan_of_incomplete (.checksum hpre hbody (by decide)) sent responses
  rw [hsplit, foldlM_append_ok (foldlM_recv_body hpre hbody hascii sent responses), foldlM_cons_ok hend]
  cases rest with
  | nil => rfl
  | cons c rest =>
    obtain rfl : rest = [] := List.length_eq_zero_iff.mp (by rw [List.length_cons] at hrest; omega)
    have hc : c.toNat < 128 := hascii' c (.head _)
    have heq : pre ++ '$' :: (body ++ ['#']) ++ [c] = pre ++ '$' :: (body ++ '#' :: [c]) := by simp
    have hdigit : ReceiveThread.recv ⟨pre ++ '$' :: (body ++ ['#']), sent, responses⟩ (Ascii.byte c) =
        .ok ⟨pre ++ '$' :: (body ++ '#' :: [c]), sent, responses⟩ := by
      rw [recv_eq hc, heq]
      exact scan_of_incomplete (.checksum hpre hbody hrest) sent responses
    exact foldlM_cons_ok hdigit []

/-- Only the last character completes a packet. -/
theorem foldlM_recv_complete {c d : Char} (hc : c.toNat < 128) (hd : d.toNat < 128) (sent : List Byte)
    (responses : List (List Char)) :
    (('$' :: (body ++ ['#', c, d])).map Ascii.byte).foldlM ReceiveThread.recv ⟨pre, sent, responses⟩ =
      ReceiveThread.scan ⟨pre ++ '$' :: (body ++ ['#', c, d]), sent, responses⟩ := by
  have hsplit : ('$' :: (body ++ ['#', c, d])).map Ascii.byte =
      ('$' :: (body ++ '#' :: [c])).map Ascii.byte ++ [Ascii.byte d] := by simp
  have hchecksum := foldlM_recv_checksum hpre hbody hascii (show [c].length < 2 from Nat.lt_succ_self 1)
    (List.forall_mem_singleton.mpr hc) sent responses
  have heq : pre ++ '$' :: (body ++ '#' :: [c]) ++ [d] = pre ++ '$' :: (body ++ ['#', c, d]) := by simp
  rw [hsplit, foldlM_append_ok hchecksum, List.foldlM_cons, recv_eq hd, heq]
  exact bind_pure _

end Packet

theorem foldlM_recv_packet {pre : List Char} (hpre : '$' ∉ pre) {m : Payload} (hne : m.text ≠ []) (sent : List Byte)
    (responses : List (List Char)) : m.packet.foldlM ReceiveThread.recv ⟨pre, sent, responses⟩ =
      .ok ⟨['#'], sent ++ [Ascii.byte '+'], responses ++ [m.text]⟩ := by
  obtain ⟨high, hhigh, low, hlow, hdigits, -⟩ := digits_eq m
  have hparse := parseMessage_packet m
  have hpacket : m.packet = ('$' :: (m.text ++ ['#', high.digitChar, low.digitChar])).map Ascii.byte := by
    rw [Payload.packet, hdigits]
    simp [Payload.bytes, startOfMessageMarker, endOfMessageMarker]
  rw [hdigits] at hparse
  rw [hpacket, foldlM_recv_complete hpre m.end_notMem m.isAscii (toNat_digitChar_lt high hhigh)
    (toNat_digitChar_lt low hlow), scan_complete hpre m.end_notMem, hparse, afterPacket,
    if_neg (by simpa using hne)]

/-! ### Streams -/

/-- An acknowledgement, which may stand between two packets. -/
inductive Ack where
  | plus
  | minus
deriving DecidableEq, Repr

def Ack.char : Ack → Char
  | plus => '+'
  | minus => '-'

def noise (acks : List Ack) : List Byte := acks.map fun ack => Ascii.byte ack.char

/-- A message, and what stands before its packet. -/
structure Segment where
  acks : List Ack
  message : Payload

def texts (segments : List Segment) : List (List Char) := segments.map (·.message.text)

/-- The bytes of the packets that `send` writes, with the acknowledgements between them. -/
def stream (send : List Char → Except PyException (List Byte)) : List Segment → Except PyException (List Byte)
  | [] => .ok []
  | segment :: segments => do
    let packet ← send segment.message.text
    let bytes ← stream send segments
    .ok (noise segment.acks ++ packet ++ bytes)

def packets (segments : List Segment) : List Byte :=
  segments.flatMap fun segment => noise segment.acks ++ segment.message.packet

theorem stream_eq {send : List Char → Except PyException (List Byte)} {segments : List Segment}
    (h : ∀ segment ∈ segments, send segment.message.text = .ok segment.message.packet) :
    stream send segments = .ok (packets segments) := by
  induction segments with
  | nil => rfl
  | cons segment segments ih =>
    obtain ⟨hsend, hrest⟩ := List.forall_mem_cons.mp h
    simp only [stream, hsend, ih hrest, bind, Except.bind]
    rfl

theorem foldlM_next_noise {s : RunState} (hs : s.state = .idle) (acks : List Ack) :
    (noise acks).foldlM RunState.next s = .ok s := by
  induction acks with
  | nil => rfl
  | cons ack acks ih =>
    have hne : Ascii.byte ack.char ≠ startOfMessageMarker := by cases ack <;> decide
    exact (foldlM_cons_ok (next_idle hs hne) _).trans ih

theorem foldlM_recv_noise {data : List Char} (h : '$' ∉ data) (sent : List Byte) (responses : List (List Char))
    (acks : List Ack) : ∃ data', '$' ∉ data' ∧
      (noise acks).foldlM ReceiveThread.recv ⟨data, sent, responses⟩ = .ok ⟨data', sent, responses⟩ := by
  have hascii : Ascii.IsAscii (acks.map Ack.char) := by
    intro c hc
    obtain ⟨ack, -, rfl⟩ := List.mem_map.mp hc
    cases ack <;> decide
  have hnot : '$' ∉ acks.map Ack.char := by
    intro hc
    obtain ⟨ack, -, hack⟩ := List.mem_map.mp hc
    cases ack <;> cases hack
  have hnoise : noise acks = (acks.map Ack.char).map Ascii.byte := by
    rw [noise, List.map_map]
    rfl
  rw [hnoise, foldlM_recv_idle hascii h hnot]
  exact ⟨data ++ acks.map Ack.char, List.mem_append.not.mpr (not_or.mpr ⟨h, hnot⟩), rfl⟩

/-- What the state machine makes of a stream. -/
theorem foldlM_next_packets (segments : List Segment) (acks : List Ack) {s : RunState} (hs : s.state = .idle) :
    ∃ s', (packets segments ++ noise acks).foldlM RunState.next s = .ok s' ∧
      s'.received = s.received ++ texts segments ∧
      s'.sent = s.sent ++ List.replicate segments.length (Ascii.byte '+') := by
  induction segments generalizing s with
  | nil => exact ⟨s, foldlM_next_noise hs acks, (List.append_nil _).symm, (List.append_nil _).symm⟩
  | cons segment segments ih =>
    have hpacket := foldlM_packet s segment.message
    obtain ⟨s', hrest, hreceived, hsent⟩ := ih (s := ⟨.idle, segment.message.bytes,
      GdbLowlevelProtocol.checksum segment.message.bytes, s.sent ++ [Ascii.byte '+'],
      s.received ++ [segment.message.text]⟩) rfl
    refine ⟨s', ?_, ?_, ?_⟩
    · rw [packets, List.flatMap_cons, List.append_assoc, List.append_assoc,
        foldlM_append_ok (foldlM_next_noise hs segment.acks), foldlM_append_ok hpacket]
      exact hrest
    · rw [hreceived, List.append_assoc]
      rfl
    · rw [hsent, List.append_assoc, List.length_cons, List.replicate_succ]
      rfl

/-- What the buffer makes of a stream. -/
theorem foldlM_recv_packets {segments : List Segment} (hne : ∀ segment ∈ segments, segment.message.text ≠ [])
    (acks : List Ack) {data : List Char} (h : '$' ∉ data) (sent : List Byte) (responses : List (List Char)) :
    ∃ data', (packets segments ++ noise acks).foldlM ReceiveThread.recv ⟨data, sent, responses⟩ =
      .ok ⟨data', sent ++ List.replicate segments.length (Ascii.byte '+'), responses ++ texts segments⟩ := by
  induction segments generalizing data sent responses with
  | nil =>
    obtain ⟨data', -, hrun⟩ := foldlM_recv_noise h sent responses acks
    refine ⟨data', ?_⟩
    rw [texts, List.map_nil, List.append_nil, List.length_nil, List.replicate_zero, List.append_nil]
    exact hrun
  | cons segment segments ih =>
    obtain ⟨hmessage, hrest⟩ := List.forall_mem_cons.mp hne
    obtain ⟨data', hdata', hnoise⟩ := foldlM_recv_noise h sent responses segment.acks
    have hpacket := foldlM_recv_packet hdata' hmessage sent responses
    obtain ⟨last, hlast⟩ := ih hrest (show '$' ∉ ['#'] by decide) (sent ++ [Ascii.byte '+'])
      (responses ++ [segment.message.text])
    refine ⟨last, ?_⟩
    rw [packets, List.flatMap_cons, List.append_assoc, List.append_assoc, foldlM_append_ok hnoise,
      foldlM_append_ok hpacket]
    refine hlast.trans ?_
    rw [List.append_assoc, List.append_assoc, List.length_cons, List.replicate_succ]
    rfl

/-- Each implementation receives what the other has sent, in order, and acknowledges every packet once. -/
theorem packets_agree (segments : List Segment) (hne : ∀ segment ∈ segments, segment.message.text ≠ [])
    (acks : List Ack) :
    (∃ bytes, stream GdbProtocol.sendMessage segments = .ok bytes ∧
      ∀ chunks : List (List Byte), chunks.flatten = bytes ++ noise acks →
        ∃ s, run .init chunks = .ok s ∧ s.received = texts segments ∧
          s.sent = List.replicate segments.length (Ascii.byte '+')) ∧
    (∃ bytes, stream GdbLowlevelProtocol.sendMessage segments = .ok bytes ∧
      ∃ s, receiveThread .init (bytes ++ noise acks) = .ok s ∧ s.responses = texts segments ∧
        s.sent = List.replicate segments.length (Ascii.byte '+')) := by
  refine ⟨⟨_, stream_eq fun segment h => sendMessage_eq (hne segment h), fun chunks hchunks => ?_⟩,
    ⟨_, stream_eq fun segment _ => lowlevel_sendMessage segment.message, ?_⟩⟩
  · obtain ⟨s, hrun, hreceived, hsent⟩ := foldlM_next_packets segments acks (s := .init) rfl
    refine ⟨s, ?_, hreceived, hsent⟩
    rw [run_eq_foldlM, hchunks]
    exact hrun
  · obtain ⟨data, hrun⟩ := foldlM_recv_packets hne acks (show '$' ∉ [] from List.not_mem_nil) [] []
    exact ⟨_, hrun, rfl, rfl⟩

/-- A memory read and its reply, with both acknowledgements between them. -/
def exchange : List Segment :=
  [⟨[], ⟨"m8000,4".toList, by decide, by decide, by decide⟩⟩,
   ⟨[.plus, .minus], ⟨"0001feca".toList, by decide, by decide, by decide⟩⟩]

theorem packets_agree_exchange :
    (∃ bytes, stream GdbProtocol.sendMessage exchange = .ok bytes ∧
      ∀ chunks : List (List Byte), chunks.flatten = bytes ++ noise [.plus] →
        ∃ s, run .init chunks = .ok s ∧ s.received = texts exchange ∧
          s.sent = List.replicate exchange.length (Ascii.byte '+')) ∧
    (∃ bytes, stream GdbLowlevelProtocol.sendMessage exchange = .ok bytes ∧
      ∃ s, receiveThread .init (bytes ++ noise [.plus]) = .ok s ∧ s.responses = texts exchange ∧
        s.sent = List.replicate exchange.length (Ascii.byte '+')) :=
  packets_agree exchange (by decide) [.plus]

end Avatar.GdbPackets
