import Avatar.Theorems.MessageCrc

/-! How the parser of messages fails. The unpack functions read fields one after the other, and the first that the
    payload does not hold decides: a single byte is an index out of range, which the parser turns into
    `AvatarProtocolOutOfDataException`, but `struct.unpack` raises an exception of its own, and a slice comes out
    short. -/

namespace Avatar
open Bytes

namespace ParserErrors

/-- Where a field is in the payload. -/
inductive Extent where
  | uint8 (start : Nat)
  | uint16 (start : Nat)
  | uint32 (start : Nat)
  | bytes (start length : Nat)

namespace Extent

def stop : Extent → Nat
  | uint8 start => start + 1
  | uint16 start => start + 2
  | uint32 start => start + 4
  | bytes start length => start + length

@[simp] theorem stop_uint8 (start : Nat) : (uint8 start).stop = start + 1 := rfl
@[simp] theorem stop_bytes (start length : Nat) : (bytes start length).stop = start + length := rfl

def IsByte : Extent → Prop
  | uint8 _ => True
  | _ => False

instance (e : Extent) : Decidable e.IsByte :=
  match e with
  | uint8 _ => isTrue trivial
  | uint16 _ | uint32 _ | bytes _ _ => isFalse id

end Extent

/-- The number of items of a list, which its first byte says -/
def count (payload : List Byte) : Nat := (payload.headD 0).toNat

/-- The fields of an opcode, in the order in which they are read. What follows the fields is not one of them. -/
def extents (payload : List Byte) : Byte → List Extent
  | 0x01 | 0x05 | 0x06 => [.uint32 0, .uint8 4]
  | 0x02 => [.uint32 0, .uint8 4, .uint32 5]
  | 0x03 | 0x21 | 0xA0 | 0x81 | 0x82 | 0xB2 => [.uint8 0]
  | 0x04 => [.uint8 0, .uint32 1]
  | 0x07 | 0x11 | 0x12 | 0xA4 | 0x91 => [.uint32 0]
  | 0x10 => [.uint32 0, .bytes 5 64]
  | 0x13 => [.uint8 0, .bytes 1 (12 * count payload)]
  | 0x20 => [.uint32 0, .uint16 4, .uint16 6, .bytes 8 32]
  | 0x90 => [.uint8 0, .bytes 1 (count payload)]
  | 0x92 => [.bytes 0 64]
  | 0x93 => [.uint8 0, .bytes 1 (4 * count payload)]
  | _ => []

/-- The first field that a payload does not hold -/
def missing (payload : List Byte) (es : List Extent) : Option Extent := es.find? fun e => payload.length < e.stop

/-- The data is too short for the fields of its opcode. -/
def TooShort : List Byte → Prop
  | [] => True
  | op :: payload => (missing payload (extents payload op)).isSome

/-- The parser returns a message with the opcode of the data or raises one of its two exceptions, each exactly when it
    should. -/
structure FailsAsDocumented (data : List Byte) : Prop where
  opcode : ∀ message, parseAvatarMessage data = .ok message → data.head? = some message.opcode
  unknownOpcode : ∀ op, parseAvatarMessage data = .error (.unknownOpcode op) ↔
    data.head? = some op ∧ op ∉ messageDeclarations.map Prod.fst
  outOfData : parseAvatarMessage data = .error .outOfData ↔ TooShort data
  others : ∀ e, parseAvatarMessage data = .error e → e = .outOfData ∨ ∃ op, e = .unknownOpcode op

/-- Every field is there, and the opcode is not one whose unpack function treats bytes as text; or the first field that
    is missing is a single byte. -/
def ReadsSafely : List Byte → Prop
  | [] => False
  | op :: payload =>
    match missing payload (extents payload op) with
    | some e => e.IsByte
    | none => op ≠ 0x13 ∧ op ≠ 0x20

/-! ### One field after the other -/

section Missing
variable {payload : List Byte} {e : Extent} {es : List Extent}

@[simp] theorem missing_nil : missing payload [] = none := rfl

theorem missing_cons_of_lt (h : payload.length < e.stop) : missing payload (e :: es) = some e :=
  List.find?_cons_of_pos (decide_eq_true h)

theorem missing_cons_of_not_lt (h : ¬payload.length < e.stop) : missing payload (e :: es) = missing payload es :=
  List.find?_cons_of_neg (mt of_decide_eq_true h)

theorem missing_append (es' : List Extent) : missing payload (es ++ es') = (missing payload es).or (missing payload es') :=
  List.find?_append

end Missing

/-- The exception of a field that is missing; a slice raises none. -/
def Extent.exception : Extent → PyException
  | .uint8 _ => .indexError
  | _ => .structError

/-- `f` reads a field of fixed width. -/
def Reads (f : List Byte → Except PyException FieldValue) (e : Extent) : Prop :=
  ∀ p, if p.length < e.stop then f p = .error e.exception else ∃ v, f p = .ok v

section Reads
variable {f : List Byte → Except PyException FieldValue} {e : Extent} {p : List Byte}

theorem Reads.error (h : Reads f e) (hp : p.length < e.stop) : f p = .error e.exception := (if_pos hp).mp (h p)

theorem Reads.ok (h : Reads f e) (hp : ¬p.length < e.stop) : ∃ v, f p = .ok v := (if_neg hp).mp (h p)

end Reads

theorem reads_uint8 {i j : Nat} (hij : i < j) : Reads (fun p => toUint8 (slice p i j)) (.uint8 i) := by
  intro p
  split_ifs with h
  · show toUint8 _ = _
    rw [MessageCrc.toUint8_slice hij, List.getElem?_eq_none (Nat.le_of_lt_succ h)]
    rfl
  · obtain ⟨b, hb⟩ : ∃ b, p[i]? = some b := ⟨_, List.getElem?_eq_getElem (Nat.lt_of_succ_le (Nat.le_of_not_lt h))⟩
    exact ⟨.int b.toNat, (MessageCrc.toUint8_slice hij p).trans (by rw [hb])⟩

theorem reads_uint16 (i : Nat) : Reads (fun p => toUint16 (slice p i (i + 2))) (.uint16 i) := by
  intro p
  split_ifs with h
  · exact (MessageCrc.toUint16_slice p i).trans (if_neg (Nat.not_le_of_lt h))
  · exact ⟨_, (MessageCrc.toUint16_slice p i).trans (if_pos (Nat.le_of_not_lt h))⟩

theorem reads_uint32 (i : Nat) : Reads (fun p => toUint32 (slice p i (i + 4))) (.uint32 i) := by
  intro p
  split_ifs with h
  · exact (MessageCrc.toUint32_slice p i).trans (if_neg (Nat.not_le_of_lt h))
  · exact ⟨_, (MessageCrc.toUint32_slice p i).trans (if_pos (Nat.le_of_not_lt h))⟩

/-- `unpack` raises the exception of the first field that is missing, and nothing if none is. -/
def ReadsAll (unpack : List Byte → Except PyException (List (String × FieldValue))) (es : List Extent) : Prop :=
  ∀ p, match missing p es with
    | some e => unpack p = .error e.exception
    | none => ∃ fields, unpack p = .ok fields

theorem readsAll_nil : ReadsAll (fun _ => dict []) [] := fun _ => ⟨[], rfl⟩

/-- What is behind the fields -/
theorem readsAll_rest (key : String) (f : List Byte → FieldValue) :
    ReadsAll (fun p => dict [(key, .ok (f p))]) [] := fun p => ⟨[(key, f p)], rfl⟩

theorem readsAll_cons {f : List Byte → Except PyException FieldValue} {e : Extent} {es : List Extent}
    {rest : List Byte → List (String × Except PyException FieldValue)} (key : String) (hf : Reads f e)
    (hrest : ReadsAll (fun p => dict (rest p)) es) : ReadsAll (fun p => dict ((key, f p) :: rest p)) (e :: es) := by
  intro p
  have hothers := hrest p
  by_cases h : p.length < e.stop
  · rw [missing_cons_of_lt h]
    simp only [dict, hf.error h, bind, Except.bind]
  · obtain ⟨v, hv⟩ := hf.ok h
    rw [missing_cons_of_not_lt h]
    cases hmissing : missing p es with
    | some e' =>
      rw [hmissing] at hothers
      have hothers : dict (rest p) = .error e'.exception := hothers
      simp only [dict, hv, hothers, bind, Except.bind]
    | none =>
      rw [hmissing] at hothers
      obtain ⟨fields, hfields⟩ : ∃ fields, dict (rest p) = .ok fields := hothers
      exact ⟨(key, v) :: fields, by simp only [dict, hv, hfields, bind, Except.bind]⟩

/-! ### The unpack functions -/

/-- How an unpack function ends -/
def Outcome (payload : List Byte) (op : Byte) (d : MessageDeclaration) : Prop :=
  match missing payload (extents payload op) with
  | some e =>
    if e.IsByte then d.unpack payload = .error .indexError
    else (∃ fields, d.unpack payload = .ok fields) ∨ d.unpack payload = .error .structError ∨
      d.unpack payload = .error .typeError
  | none =>
    if op = 0x13 ∨ op = 0x20 then d.unpack payload = .error .typeError
    else ∃ fields, d.unpack payload = .ok fields

section Outcomes
open MessageDeclaration
variable {payload : List Byte} {op : Byte} {d : MessageDeclaration} {es : List Extent}

theorem Outcome.of_missing {e : Extent} (h : missing payload (extents payload op) = some e)
    (hunpack : d.unpack payload = .error e.exception) : Outcome payload op d := by
  unfold Outcome
  rw [h]
  cases e with
  | uint8 => exact hunpack
  | uint16 | uint32 | bytes => exact Or.inr (Or.inl hunpack)

theorem Outcome.of_slice {i n : Nat} (h : missing payload (extents payload op) = some (.bytes i n))
    (hunpack : (∃ fields, d.unpack payload = .ok fields) ∨ d.unpack payload = .error .structError ∨
      d.unpack payload = .error .typeError) : Outcome payload op d := by
  unfold Outcome
  rw [h]
  exact hunpack

theorem Outcome.of_complete (h : missing payload (extents payload op) = none) (htext : ¬(op = 0x13 ∨ op = 0x20))
    (hunpack : ∃ fields, d.unpack payload = .ok fields) : Outcome payload op d := by
  unfold Outcome
  rw [h]
  exact (if_neg htext).mpr hunpack

theorem Outcome.of_text (h : missing payload (extents payload op) = none) (hop : op = 0x13 ∨ op = 0x20)
    (hunpack : d.unpack payload = .error .typeError) : Outcome payload op d := by
  unfold Outcome
  rw [h]
  exact (if_pos hop).mpr hunpack

theorem outcome_of_readsAll (h : ReadsAll d.unpack es) (hes : extents payload op = es)
    (htext : ¬(op = 0x13 ∨ op = 0x20)) : Outcome payload op d := by
  have hunpack := h payload
  cases hmissing : missing payload es with
  | none =>
    rw [hmissing] at hunpack
    exact .of_complete (by rw [hes, hmissing]) htext hunpack
  | some e =>
    rw [hmissing] at hunpack
    exact .of_missing (by rw [hes, hmissing]) hunpack

/-- A slice behind the other fields is not checked. -/
theorem outcome_of_slice {i n : Nat} (h : ReadsAll d.unpack es) (hes : extents payload op = es ++ [.bytes i n])
    (htext : ¬(op = 0x13 ∨ op = 0x20)) : Outcome payload op d := by
  have hunpack := h payload
  cases hmissing : missing payload es with
  | none =>
    rw [hmissing] at hunpack
    have hlast : missing payload (extents payload op) = missing payload [.bytes i n] := by
      rw [hes, missing_append, hmissing, Option.none_or]
    by_cases hslice : payload.length < i + n
    · exact .of_slice (hlast.trans (missing_cons_of_lt hslice)) (Or.inl hunpack)
    · exact .of_complete (hlast.trans (missing_cons_of_not_lt hslice)) htext hunpack
  | some e =>
    rw [hmissing] at hunpack
    exact .of_missing (by rw [hes, missing_append, hmissing, Option.some_or]) hunpack

/-- The bytes behind their number -/
theorem missing_counted (k : Byte) (q : List Byte) (n : Nat) :
    missing (k :: q) [.uint8 0, .bytes 1 n] = if q.length < n then some (.bytes 1 n) else none := by
  have hstop : (k :: q).length < (Extent.bytes 1 n).stop ↔ q.length < n := by
    rw [Extent.stop_bytes, List.length_cons]
    omega
  rw [missing_cons_of_not_lt (by simp)]
  split_ifs with h
  · exact missing_cons_of_lt (hstop.mpr h)
  · exact missing_cons_of_not_lt (mt hstop.mp h)

theorem outcome_setMemoryMap : Outcome payload 0x13 setMemoryMap := by
  cases payload with
  | nil => exact .of_missing (e := .uint8 0) rfl rfl
  | cons k q =>
    have hmissing : missing (k :: q) (extents (k :: q) 0x13) = _ := missing_counted k q (12 * k.toNat)
    by_cases hslice : q.length < 12 * k.toNat
    · exact .of_slice (hmissing.trans (if_pos hslice)) (Or.inr (Or.inr rfl))
    · exact .of_text (hmissing.trans (if_neg hslice)) (Or.inl rfl) rfl

theorem readsAll_replyGetDirtyPages : ReadsAll replyGetDirtyPages.unpack [.uint8 0] := by
  intro p
  cases p with
  | nil => rfl
  | cons k q => exact ⟨_, MessageCrc.replyGetDirtyPages_unpack k q⟩

theorem outcome_replyReadMemory : Outcome payload 0x90 replyReadMemory := by
  cases payload with
  | nil => exact .of_missing (e := .uint8 0) rfl rfl
  | cons k q =>
    have hmissing : missing (k :: q) (extents (k :: q) 0x90) = _ := missing_counted k q k.toNat
    have hunpack := MessageCrc.replyReadMemory_unpack k q
    by_cases hslice : q.length < k.toNat
    · refine .of_slice (hmissing.trans (if_pos hslice)) ?_
      split_ifs at hunpack
      · exact Or.inl ⟨_, hunpack⟩
      · exact Or.inr (Or.inl hunpack)
    · refine .of_complete (hmissing.trans (if_neg hslice)) (by decide) ⟨_, hunpack.trans (if_pos ?_)⟩
      omega

/-- The vectors are joined as if bytes were text, unless there are none. -/
theorem outcome_setExceptionConfig : Outcome payload 0x20 setExceptionConfig := by
  have hmissing : missing payload (extents payload 0x20) =
      missing payload [.uint32 0, .uint16 4, .uint16 6, .bytes 8 32] := rfl
  by_cases h4 : payload.length < 4
  · refine .of_missing (hmissing.trans (missing_cons_of_lt h4)) ?_
    simp only [setExceptionConfig, dict, (reads_uint32 0).error h4, bind, Except.bind]
  obtain ⟨config, hconfig⟩ := (reads_uint32 0).ok h4
  rw [missing_cons_of_not_lt h4] at hmissing
  by_cases h6 : payload.length < 6
  · refine .of_missing (hmissing.trans (missing_cons_of_lt h6)) ?_
    simp only [setExceptionConfig, dict, hconfig, (reads_uint16 4).error h6, bind, Except.bind]
  obtain ⟨irq, hirq⟩ := (reads_uint16 4).ok h6
  rw [missing_cons_of_not_lt h6] at hmissing
  by_cases h8 : payload.length < 8
  · refine .of_missing (hmissing.trans (missing_cons_of_lt h8)) ?_
    simp only [setExceptionConfig, dict, hconfig, hirq, (reads_uint16 6).error h8, bind, Except.bind]
  obtain ⟨fiq, hfiq⟩ := (reads_uint16 6).ok h8
  rw [missing_cons_of_not_lt h8] at hmissing
  have hvectors : 12 ≤ payload.length → setExceptionConfig.unpack payload = .error .typeError := by
    intro h12
    have hz : (zipIter4 (slice payload 8 (8 + 32))).length ≠ 0 := by
      rw [MessageCrc.zipIter4_length, length_slice]
      omega
    simp only [setExceptionConfig, dict, hconfig, hirq, hfiq, MessageCrc.mapM_joinedUint32, if_neg hz, bind,
      Except.bind]
  by_cases h40 : payload.length < 40
  · refine .of_slice (hmissing.trans (missing_cons_of_lt h40)) ?_
    by_cases h12 : payload.length < 12
    · exact Or.inl ⟨_, MessageCrc.setExceptionConfig_ok (by omega) h12⟩
    · exact Or.inr (Or.inr (hvectors (by omega)))
  · exact .of_text (hmissing.trans (missing_cons_of_not_lt h40)) (Or.inr rfl) (hvectors (by omega))

theorem outcome_of_mem (hd : (op, d) ∈ messageDeclarations) : Outcome payload op d := by
  have uint8 : ∀ key, ReadsAll (fun p => dict [(key, toUint8 (slice p 0 1))]) [.uint8 0] := fun key =>
    readsAll_cons key (reads_uint8 (by decide)) readsAll_nil
  have uint32 : ∀ key, ReadsAll (fun p => dict [(key, toUint32 (slice p 0 4))]) [.uint32 0] := fun key =>
    readsAll_cons key (reads_uint32 0) readsAll_nil
  have address_size : ReadsAll readMemory.unpack [.uint32 0, .uint8 4] :=
    readsAll_cons _ (reads_uint32 0) (readsAll_cons _ (reads_uint8 (by decide)) readsAll_nil)
  revert op d
  apply declarations_cases
  case readMemory | readUntypedMemory => exact outcome_of_readsAll address_size rfl (by decide)
  case writeMemory =>
    exact outcome_of_readsAll (readsAll_cons _ (reads_uint32 0) (readsAll_cons _ (reads_uint8 (by decide))
      (readsAll_cons _ (reads_uint32 5) readsAll_nil))) rfl (by decide)
  case setRegister =>
    exact outcome_of_readsAll (readsAll_cons _ (reads_uint8 (by decide)) (readsAll_cons _ (reads_uint32 1) readsAll_nil))
      rfl (by decide)
  case writeUntypedMemory =>
    exact outcome_of_readsAll (readsAll_cons _ (reads_uint32 0) (readsAll_cons _ (reads_uint8 (by decide))
      (readsAll_rest _ _))) rfl (by decide)
  case insertPage =>
    exact outcome_of_slice (readsAll_cons _ (reads_uint32 0) (readsAll_rest _ _)) rfl (by decide)
  case replyExtractPage => exact outcome_of_slice (readsAll_rest _ _) rfl (by decide)
  case replyGetDirtyPages => exact outcome_of_slice readsAll_replyGetDirtyPages rfl (by decide)
  case replyReadUntypedMemory => exact outcome_of_readsAll (readsAll_rest _ _) rfl (by decide)
  case clearException =>
    exact outcome_of_readsAll (readsAll_cons _ (reads_uint8 (by decide)) readsAll_nil) rfl (by decide)
  case setMemoryMap => exact outcome_setMemoryMap
  case setExceptionConfig => exact outcome_setExceptionConfig
  case replyReadMemory => exact outcome_replyReadMemory
  case getRegister | infoException | state | replyState | replyError =>
    exact outcome_of_readsAll (uint8 _) rfl (by decide)
  case codeletExecute | extractPage | unmapPage | pagefault | replyGetRegister =>
    exact outcome_of_readsAll (uint32 _) rfl (by decide)
  case getDirtyPages | resumeVm | queryState | continueFromPagefault | replyOk | replyCodeletExecutionFinished =>
    exact outcome_of_readsAll readsAll_nil rfl (by decide)

end Outcomes

/-! ### The parser -/

section Parser
variable {payload : List Byte} {op : Byte} {d : MessageDeclaration}

theorem mem_opcodes (h : messageDeclarations.lookup op = some d) : op ∈ messageDeclarations.map Prod.fst :=
  List.mem_map.mpr ⟨(op, d), mem_of_lookup h, rfl⟩

theorem not_mem_opcodes (h : messageDeclarations.lookup op = none) : op ∉ messageDeclarations.map Prod.fst := by
  rintro hop
  rcases List.mem_map.mp hop with ⟨⟨op', d⟩, hd, rfl⟩
  rw [lookup_opcode hd] at h
  cases h

/-- An opcode that is not in the table has no fields. -/
theorem extents_unknown (h : messageDeclarations.lookup op = none) : extents payload op = [] := by
  have hop := not_mem_opcodes h
  unfold extents
  split <;> first | rfl | exact absurd (by decide) hop

theorem parseAvatarMessage_unknown (h : messageDeclarations.lookup op = none) :
    parseAvatarMessage (op :: payload) = .error (.unknownOpcode op) := by
  simp only [MessageCrc.parseAvatarMessage_cons, h]

theorem parseAvatarMessage_exception (h : messageDeclarations.lookup op = some d) {e : PyException}
    (hunpack : d.unpack payload = .error e) (he : e ≠ .indexError) :
    parseAvatarMessage (op :: payload) = .error e := by
  simp only [MessageCrc.parseAvatarMessage_cons, h, hunpack]

theorem parseAvatarMessage_indexError (h : messageDeclarations.lookup op = some d)
    (hunpack : d.unpack payload = .error .indexError) : parseAvatarMessage (op :: payload) = .error .outOfData := by
  simp only [MessageCrc.parseAvatarMessage_cons, h, hunpack]

/-! What the parser does and whether the data is too short decide. -/

theorem failsAsDocumented_of_ok {data : List Byte} {message : AvatarMessage}
    (h : parseAvatarMessage data = .ok message) (hop : data.head? = some message.opcode)
    (hknown : message.opcode ∈ messageDeclarations.map Prod.fst) (hshort : ¬TooShort data) :
    FailsAsDocumented data where
  opcode m hm := by
    rw [h, Except.ok.injEq] at hm
    rw [← hm, hop]
  unknownOpcode op := by
    rw [h, hop, Option.some.injEq]
    refine iff_of_false (fun he => by cases he) ?_
    rintro ⟨rfl, hunknown⟩
    exact hunknown hknown
  outOfData := by
    rw [h]
    exact iff_of_false (fun he => by cases he) hshort
  others e he := by
    rw [h] at he
    cases he

theorem failsAsDocumented_of_outOfData {data : List Byte} (h : parseAvatarMessage data = .error .outOfData)
    (hop : ∀ op, data.head? = some op → op ∈ messageDeclarations.map Prod.fst) (hshort : TooShort data) :
    FailsAsDocumented data where
  opcode m hm := by
    rw [h] at hm
    cases hm
  unknownOpcode op := by
    rw [h]
    exact iff_of_false (fun he => by cases he) fun hunknown => hunknown.2 (hop op hunknown.1)
  outOfData := iff_of_true h hshort
  others e he := by
    rw [h, Except.error.injEq] at he
    exact Or.inl he.symm

theorem failsAsDocumented_of_unknown (h : messageDeclarations.lookup op = none) :
    FailsAsDocumented (op :: payload) where
  opcode m hm := by
    rw [parseAvatarMessage_unknown h] at hm
    cases hm
  unknownOpcode op' := by
    rw [parseAvatarMessage_unknown h, Except.error.injEq, PyException.unknownOpcode.injEq, List.head?_cons,
      Option.some.injEq, iff_self_and]
    rintro rfl
    exact not_mem_opcodes h
  outOfData := by
    rw [parseAvatarMessage_unknown h, TooShort, extents_unknown h]
    exact iff_of_false (fun he => by cases he) (by simp)
  others e he := by
    rw [parseAvatarMessage_unknown h, Except.error.injEq] at he
    exact Or.inr ⟨op, he.symm⟩

theorem readsSafely_of_unknown (h : messageDeclarations.lookup op = none) : ReadsSafely (op :: payload) := by
  rw [ReadsSafely, extents_unknown h]
  constructor
  · rintro rfl
    cases h
  · rintro rfl
    cases h

/-- The parser fails as it is documented exactly on the data that its unpack functions read safely. -/
theorem failsAsDocumented_iff (data : List Byte) : FailsAsDocumented data ↔ ReadsSafely data := by
  rcases data with _ | ⟨op, payload⟩
  · refine iff_of_false (fun h => ?_) id
    rcases h.others .indexError rfl with he | ⟨op, he⟩ <;> cases he
  cases hd : messageDeclarations.lookup op with
  | none => exact iff_of_true (failsAsDocumented_of_unknown hd) (readsSafely_of_unknown hd)
  | some d =>
    have houtcome : Outcome payload op d := outcome_of_mem (mem_of_lookup hd)
    unfold Outcome at houtcome
    rw [ReadsSafely]
    cases hmissing : missing payload (extents payload op) with
    | none =>
      have hshort : ¬TooShort (op :: payload) := by simp [TooShort, hmissing]
      simp only [hmissing] at houtcome
      split_ifs at houtcome with htext
      · refine iff_of_false (fun h => ?_) fun hsafe => htext.elim hsafe.1 hsafe.2
        rcases h.others _ (parseAvatarMessage_exception hd houtcome (by decide)) with he | ⟨op, he⟩ <;> cases he
      · rcases houtcome with ⟨fields, hunpack⟩
        exact iff_of_true (failsAsDocumented_of_ok (MessageCrc.parseAvatarMessage_ok hd hunpack) rfl (mem_opcodes hd)
          hshort) (not_or.mp htext)
    | some e =>
      have hshort : TooShort (op :: payload) := by simp [TooShort, hmissing]
      simp only [hmissing] at houtcome
      split_ifs at houtcome with hbyte
      · refine iff_of_true (failsAsDocumented_of_outOfData (parseAvatarMessage_indexError hd houtcome) ?_ hshort) hbyte
        rintro op' hop
        rcases hop
        exact mem_opcodes hd
      · refine iff_of_false (fun h => ?_) hbyte
        have houtOfData := h.outOfData.mpr hshort
        rcases houtcome with ⟨fields, hunpack⟩ | hunpack | hunpack
        · rw [MessageCrc.parseAvatarMessage_ok hd hunpack] at houtOfData
          cases houtOfData
        · rw [parseAvatarMessage_exception hd hunpack (by decide)] at houtOfData
          cases houtOfData
        · rw [parseAvatarMessage_exception hd hunpack (by decide)] at houtOfData
          cases houtOfData

theorem not_failsAsDocumented : ¬∀ data, FailsAsDocumented data := by
  intro h
  have hothers := (h [0x01]).others .structError rfl
  rcases hothers with h | ⟨op, h⟩ <;> cases h

end Parser

end ParserErrors

end Avatar
