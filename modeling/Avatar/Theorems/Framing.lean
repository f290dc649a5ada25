import Avatar.AvatarStub.Lowlevel

/-! The link framing is a byte-stuffing code: the two replacements of `send_message` stuff byte by
    byte, and `run` is the decoder of the code. A round trip over any sequence of frames follows. -/

namespace Avatar.AvatarLowlevelProtocol
open Bytes Stuffing

/-- The stuffing code of the link: `0x55` ends a frame, `0xAA` escapes. -/
def linkCode : Code Byte where
  flag := 0x55
  esc := 0xAA
  flagCode := 0x01
  escCode := 0x02
  flag_ne_esc := by decide
  flagCode_ne_flag := by decide
  escCode_ne_flag := by decide
  escCode_ne_flagCode := by decide

/-! ### The code and the program -/

theorem escape_eq_stuff (message : List Byte) : escape message = message.flatMap linkCode.stuff :=
  linkCode.replaceAll_replaceAll message

/-- A frame stuffs the message followed by its CRC, and ends with the flag. -/
theorem rawMessage_eq_stuff (m : List Byte) :
    rawMessage m = (m ++ [crc8 m]).flatMap linkCode.stuff ++ [linkCode.flag] := by
  simp only [rawMessage, escape_eq_stuff, List.flatMap_append]
  rfl

def RunState.decoder (s : RunState) : Decoder Byte := ⟨s.input_buffer, s.next_byte.isSome⟩

/-- The byte that the receiver keeps inside an escape sequence is the escape byte. -/
def RunState.Escaping (s : RunState) : Prop := ∀ b ∈ s.next_byte, b = linkCode.esc

theorem recv_escaping (s : RunState) (byte : Byte) : (s.recv byte).1.Escaping := by
  unfold RunState.recv
  split
  · split
    · simp [RunState.Escaping]
    · split
      · rename_i heq
        simp [RunState.Escaping, heq, linkCode]
      · simp [RunState.Escaping]
  · simp [RunState.Escaping]

theorem recv_eq_feed {s : RunState} (byte : Byte) (h : s.Escaping) :
    ((s.recv byte).1.decoder, (s.recv byte).2) = linkCode.feed s.decoder byte := by
  obtain ⟨buffer, next⟩ := s
  cases next with
  | none =>
    simp only [RunState.recv, RunState.decoder, Code.feed, Option.isSome_none, Bool.false_eq_true, if_false]
    show _ = if byte = 0x55 then _ else if byte = 0xAA then _ else _
    split
    · rfl
    · split <;> rfl
  | some b =>
    obtain rfl : b = linkCode.esc := h b rfl
    simp only [RunState.recv, RunState.decoder, Code.feed, Option.isSome_some, if_true, Option.isSome_none]
    have : linkCode.unescape byte = if byte = 0x01 then 0x55 else if byte = 0x02 then 0xAA else linkCode.esc := by
      unfold Code.unescape
      show (if byte = 0x01 then (0x55 : Byte) else 0xAA) = _
      split
      · rfl
      · split <;> rfl
    rw [this]

theorem run_eq_feedAll {s : RunState} (bytes : List Byte) (h : s.Escaping) :
    ((run s bytes).1.decoder, (run s bytes).2) = linkCode.feedAll s.decoder bytes := by
  induction bytes generalizing s with
  | nil => rfl
  | cons byte rest ih =>
    have hstep := recv_eq_feed byte h
    have hrest := ih (recv_escaping s byte)
    simp only [run, Code.feedAll, ← hstep, ← hrest]

/-! ### The round trip -/

theorem crcMatches_append (m : List Byte) : crcMatches (m ++ [crc8 m]) = true := by
  simp [crcMatches]

theorem rawMessage_flag (m : List Byte) : ∃ body, rawMessage m = body ++ [0x55] ∧ 0x55 ∉ body :=
  ⟨_, rawMessage_eq_stuff m, linkCode.flag_notMem_flatMap_stuff _⟩

/-- Frames sent one after another reach `parse_message` one after another, each as the message
    followed by its CRC, and leave the receiver as it started. -/
theorem run_frames (ms : List (List Byte)) :
    (run .init (ms.flatMap rawMessage)).2 = ms.map fun m => m ++ [crc8 m] := by
  have hrun := run_eq_feedAll (s := .init) (ms.flatMap rawMessage) (by simp [RunState.init, RunState.Escaping])
  have hframes : linkCode.feedAll ⟨[], false⟩ (ms.flatMap rawMessage) =
      (⟨[], false⟩, ms.map fun m => m ++ [crc8 m]) := by
    rw [← linkCode.feedAll_frames, List.flatMap_map]
    congr 2
    funext m
    exact rawMessage_eq_stuff m
  exact (congrArg Prod.snd hrun).trans (congrArg Prod.snd hframes)

/-- The framing round trip: every message sent is parsed once, in order, with a CRC that matches, and
    no frame contains the flag before its end. -/
theorem framing_roundtrip (ms : List (List Byte)) :
    (run .init (ms.flatMap rawMessage)).2 = ms.map (fun m => m ++ [crc8 m]) ∧
    (∀ data ∈ (run .init (ms.flatMap rawMessage)).2, crcMatches data = true) ∧
    (∀ m ∈ ms, ∃ body, rawMessage m = body ++ [0x55] ∧ 0x55 ∉ body) := by
  refine ⟨run_frames ms, ?_, fun m _ => rawMessage_flag m⟩
  intro data hdata
  rw [run_frames] at hdata
  obtain ⟨m, -, rfl⟩ := List.mem_map.mp hdata
  exact crcMatches_append m

/-! ### After noise -/

theorem run_append (s : RunState) (bytes bytes' : List Byte) : run s (bytes ++ bytes') =
    ((run (run s bytes).1 bytes').1, (run s bytes).2 ++ (run (run s bytes).1 bytes').2) := by
  induction bytes generalizing s with
  | nil => rfl
  | cons byte rest ih => simp only [List.cons_append, run, ih, List.append_assoc]

theorem run_escaping {s : RunState} (bytes : List Byte) (h : s.Escaping) : (run s bytes).1.Escaping := by
  induction bytes generalizing s with
  | nil => exact h
  | cons byte rest ih => exact ih (recv_escaping s byte)

theorem eq_init_of_decoder {s : RunState} (h : s.decoder = ⟨[], false⟩) : s = .init := by
  obtain ⟨buffer, next⟩ := s
  cases next with
  | none =>
    cases h
    rfl
  | some byte => cases h

/-- A frame ends what came before it, be it in the middle of an escape sequence. -/
theorem run_frame_state {s : RunState} (h : s.Escaping) (m : List Byte) : (run s (rawMessage m)).1 = .init := by
  refine eq_init_of_decoder ?_
  have hrun := congrArg Prod.fst (run_eq_feedAll (rawMessage m) h)
  rw [rawMessage_eq_stuff] at hrun ⊢
  have hne := List.append_ne_nil_of_right_ne_nil m (List.cons_ne_nil (crc8 m) [])
  exact hrun.trans (linkCode.feedAll_frame_state (by decide) (by decide) _ hne)

section Raise
variable {handler : AvatarMessage → Except Raised Unit}

theorem exceptException_ok {x : Except Raised Unit} (h : x ≠ .error .other) : exceptException x = .ok () := by
  cases x with
  | ok => rfl
  | error e =>
    cases e with
    | exception => rfl
    | other => exact absurd rfl h

theorem parseMessageWith_ok (h : ∀ message, handler message ≠ .error .other) (data : List Byte) :
    parseMessageWith handler data = .ok () := by
  rcases List.eq_nil_or_concat data with rfl | ⟨body, crc, rfl⟩
  · rfl
  have hne : (body.concat crc).isEmpty = false := by simp
  have hlast : index (body.concat crc) ((body.concat crc).length - 1) = .ok crc := by simp [index]
  obtain ⟨byte, hfirst⟩ : ∃ byte, index (body.concat crc) 0 = .ok byte := by
    cases body with
    | nil => exact ⟨crc, rfl⟩
    | cons byte body => exact ⟨byte, rfl⟩
  rw [parseMessageWith, hne, if_neg Bool.false_ne_true, hlast]
  show (if crc ≠ crc8 (body.concat crc).dropLast then (raised (index (body.concat crc) 0)).bind fun _ => .ok ()
    else _) = _
  split
  · rw [hfirst]
    rfl
  · cases parseAvatarMessage (body.concat crc) with
    | error e => rfl
    | ok message => exact exceptException_ok (h message)

/-- `run` goes on as long as `parse_message` does. -/
theorem runWith_ok (h : ∀ message, handler message ≠ .error .other) (s : RunState) (bytes : List Byte) :
    runWith handler s bytes = .ok (run s bytes).1 := by
  induction bytes generalizing s with
  | nil => rfl
  | cons byte rest ih =>
    have hcall : (s.recv byte).2.forM (parseMessageWith handler) = .ok () := by
      cases (s.recv byte).2 with
      | none => rfl
      | some data => exact parseMessageWith_ok h data
    rw [runWith, run, hcall]
    exact ih _

end Raise

/-- Noise costs at most the frame behind it: nothing ends the receiver thread, and the frames that follow are
    parsed as they were sent. -/
theorem noise_costs_one_frame {handler : AvatarMessage → Except Raised Unit}
    (hhandler : ∀ message, handler message ≠ .error .other) (noise m : List Byte) (ms : List (List Byte)) :
    runWith handler .init (noise ++ rawMessage m ++ ms.flatMap rawMessage) =
      .ok (run .init (noise ++ rawMessage m ++ ms.flatMap rawMessage)).1 ∧
    (run (run .init (noise ++ rawMessage m)).1 (ms.flatMap rawMessage)).2 = ms.map (fun m => m ++ [crc8 m]) ∧
    ∀ data ∈ (run (run .init (noise ++ rawMessage m)).1 (ms.flatMap rawMessage)).2, crcMatches data = true := by
  have hstate : (run .init (noise ++ rawMessage m)).1 = .init := by
    rw [run_append]
    exact run_frame_state (run_escaping noise (by simp [RunState.init, RunState.Escaping])) m
  refine ⟨runWith_ok hhandler _ _, ?_, ?_⟩
  · rw [hstate]
    exact run_frames ms
  · intro data hdata
    rw [hstate, run_frames] at hdata
    obtain ⟨m, -, rfl⟩ := List.mem_map.mp hdata
    exact crcMatches_append m

/-- A dangling escape byte before two frames, and a handler that raises. -/
theorem noise_costs_one_frame_escape :
    runWith (fun _ => .error .exception) .init ([0xAA] ++ rawMessage [0xB1] ++ [[0x95]].flatMap rawMessage) =
      .ok (run .init ([0xAA] ++ rawMessage [0xB1] ++ [[0x95]].flatMap rawMessage)).1 ∧
    (run (run .init ([0xAA] ++ rawMessage [0xB1])).1 ([[0x95]].flatMap rawMessage)).2 =
      [[0x95]].map (fun m => m ++ [crc8 m]) ∧
    ∀ data ∈ (run (run .init ([0xAA] ++ rawMessage [0xB1])).1 ([[0x95]].flatMap rawMessage)).2,
      crcMatches data = true :=
  noise_costs_one_frame (fun _ h => by cases h) [0xAA] [0xB1] [[0x95]]

end Avatar.AvatarLowlevelProtocol
