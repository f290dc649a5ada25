import Avatar.Theorems.Framing

/-! What the CRC byte does to a received message. `parse_message` checks the CRC of the bytes before
    the last one and then parses all of them, so every unpack function sees the CRC byte behind the
    payload. A function that reads a fixed number of bytes is deceived only by a payload that is one
    byte short; the others are taken one by one. -/

namespace Avatar
open Bytes

namespace MessageCrc

/-! ### Readers of a fixed width -/

/-- `f` needs `n` bytes: it fails on fewer, and a byte behind them does not change what it reads. -/
structure Width {α : Type} (f : List Byte → Except PyException α) (n : Nat) : Prop where
  short : ∀ p, p.length < n → ∃ e, f p = .error e
  long : ∀ p, n ≤ p.length → ∃ v, f p = .ok v ∧ ∀ c, f (p ++ [c]) = .ok v

theorem toUint32_slice (p : List Byte) (i : Nat) : toUint32 (slice p i (i + 4)) =
    if i + 4 ≤ p.length then .ok (.int (ofLE (slice p i (i + 4)))) else .error .structError := by
  have hlen : (slice p i (i + 4)).length ≤ 4 := by
    rw [length_slice]
    omega
  unfold toUint32
  rw [slice_zero_of_length_le _ _ hlen, length_slice]
  by_cases h : i + 4 ≤ p.length
  · rw [if_pos h, if_pos (by omega)]
  · rw [if_neg h, if_neg (by omega)]

theorem toUint16_slice (p : List Byte) (i : Nat) : toUint16 (slice p i (i + 2)) =
    if i + 2 ≤ p.length then .ok (.int (ofLE (slice p i (i + 2)))) else .error .structError := by
  have hlen : (slice p i (i + 2)).length ≤ 2 := by
    rw [length_slice]
    omega
  unfold toUint16
  rw [slice_zero_of_length_le _ _ hlen, length_slice]
  by_cases h : i + 2 ≤ p.length
  · rw [if_pos h, if_pos (by omega)]
  · rw [if_neg h, if_neg (by omega)]

theorem width_uint32 (i : Nat) : Width (fun p => toUint32 (slice p i (i + 4))) (i + 4) where
  short p h := ⟨.structError, by rw [toUint32_slice, if_neg (by omega)]⟩
  long p h := ⟨_, by rw [toUint32_slice, if_pos h], fun c => by
    rw [toUint32_slice, slice_append_of_le _ _ _ _ h, if_pos (by simp; omega)]⟩

theorem width_uint16 (i : Nat) : Width (fun p => toUint16 (slice p i (i + 2))) (i + 2) where
  short p h := ⟨.structError, by rw [toUint16_slice, if_neg (by omega)]⟩
  long p h := ⟨_, by rw [toUint16_slice, if_pos h], fun c => by
    rw [toUint16_slice, slice_append_of_le _ _ _ _ h, if_pos (by simp; omega)]⟩

theorem toUint8_slice {i j : Nat} (hij : i < j) (p : List Byte) : toUint8 (slice p i j) =
    match p[i]? with
    | some b => .ok (.int b.toNat)
    | none => .error .indexError := by
  unfold toUint8 index
  rw [getElem?_slice, if_pos (by omega), Nat.add_zero]
  cases p[i]? <;> rfl

theorem width_uint8 {i j : Nat} (hij : i < j) : Width (fun p => toUint8 (slice p i j)) (i + 1) where
  short p h := ⟨.indexError, by rw [toUint8_slice hij, List.getElem?_eq_none (by omega)]⟩
  long p h := by
    obtain ⟨b, hb⟩ : ∃ b, p[i]? = some b := ⟨_, List.getElem?_eq_getElem (by omega)⟩
    exact ⟨.int b.toNat, by rw [toUint8_slice hij, hb],
      fun c => by rw [toUint8_slice hij, List.getElem?_append_left (by omega), hb]⟩

theorem width_nil : Width (fun _ => dict []) 0 where
  short _ h := absurd h (Nat.not_lt_zero _)
  long _ _ := ⟨[], rfl, fun _ => rfl⟩

theorem width_cons {f : List Byte → Except PyException FieldValue}
    {rest : List Byte → List (String × Except PyException FieldValue)} {n m : Nat} (key : String)
    (hf : Width f n) (hrest : Width (fun p => dict (rest p)) m) :
    Width (fun p => dict ((key, f p) :: rest p)) (max n m) where
  short p h := by
    by_cases hn : p.length < n
    · obtain ⟨e, he⟩ := hf.short p hn
      exact ⟨e, by simp [dict, he, bind, Except.bind]⟩
    · obtain ⟨v, hv, -⟩ := hf.long p (by omega)
      obtain ⟨e, he⟩ := hrest.short p (by omega)
      exact ⟨e, by simp [dict, hv, he, bind, Except.bind]⟩
  long p h := by
    obtain ⟨v, hv, hv'⟩ := hf.long p (by omega)
    obtain ⟨fs, hfs, hfs'⟩ := hrest.long p (by omega)
    exact ⟨(key, v) :: fs, by simp [dict, hv, hfs, bind, Except.bind],
      fun c => by simp [dict, hv', hfs', bind, Except.bind]⟩

/-! ### The unpack functions -/

/-- The byte `c` behind the payload `p` leaves what `unpack` gives as it is: the same fields, or a
    failure as well. -/
def Hidden (unpack : List Byte → Except PyException (List (String × FieldValue))) (p : List Byte) (c : Byte) : Prop :=
  match unpack p with
  | .ok fields => unpack (p ++ [c]) = .ok fields
  | .error _ => ∃ e, unpack (p ++ [c]) = .error e

variable {unpack : List Byte → Except PyException (List (String × FieldValue))} {p : List Byte} {c : Byte}

theorem hidden_of_ok {fields : List (String × FieldValue)} (h : unpack p = .ok fields) :
    Hidden unpack p c ↔ unpack (p ++ [c]) = .ok fields := by
  simp only [Hidden, h]

theorem hidden_of_error {e : PyException} (h : unpack p = .error e) :
    Hidden unpack p c ↔ ∃ e, unpack (p ++ [c]) = .error e := by
  simp only [Hidden, h]

/-- A function of a fixed width is deceived only by a payload that is one byte short. -/
theorem Width.hidden_iff {n : Nat} (h : Width unpack n) : Hidden unpack p c ↔ p.length + 1 ≠ n := by
  by_cases hn : n ≤ p.length
  · obtain ⟨fs, hfs, hfs'⟩ := h.long p hn
    rw [hidden_of_ok hfs]
    exact ⟨fun _ => by omega, fun _ => hfs' c⟩
  · obtain ⟨e, he⟩ := h.short p (by omega)
    rw [hidden_of_error he]
    constructor
    · rintro ⟨e', he'⟩ heq
      obtain ⟨fs, hfs, -⟩ := h.long (p ++ [c]) (by simp [heq])
      rw [hfs] at he'
      cases he'
    · intro hne
      exact h.short (p ++ [c]) (by simp; omega)

/-! ### Functions with an open end -/

theorem dict_cons_error {key : String} {v : Except PyException FieldValue}
    (rest : List (String × Except PyException FieldValue)) (h : ∃ e, v = .error e) :
    ∃ e, dict ((key, v) :: rest) = .error e := by
  obtain ⟨e, rfl⟩ := h
  exact ⟨e, rfl⟩

theorem dict_cons_error_tail {key : String} {v : Except PyException FieldValue}
    {rest : List (String × Except PyException FieldValue)} (h : ∃ e, dict rest = .error e) :
    ∃ e, dict ((key, v) :: rest) = .error e := by
  obtain ⟨e, he⟩ := h
  cases v with
  | error e' => exact ⟨e', rfl⟩
  | ok v => exact ⟨e, by simp [dict, he, bind, Except.bind]⟩

theorem dict_cons_ok {key : String} {v : FieldValue} {rest : List (String × Except PyException FieldValue)}
    {fs : List (String × FieldValue)} (h : dict rest = .ok fs) :
    dict ((key, .ok v) :: rest) = .ok ((key, v) :: fs) := by
  simp [dict, h, bind, Except.bind]

/-- `unpack` reads fields of `n` bytes together and then, as `data`, a part of the payload that never
    fails. -/
structure OpenWidth (unpack : List Byte → Except PyException (List (String × FieldValue))) (n : Nat)
    (tail : List Byte → List Byte) : Prop where
  short : ∀ p, p.length < n → ∃ e, unpack p = .error e
  long : ∀ p, n ≤ p.length → ∃ fs, unpack p = .ok (fs ++ [("data", .bytes (tail p))]) ∧
    ∀ c, unpack (p ++ [c]) = .ok (fs ++ [("data", .bytes (tail (p ++ [c])))])

theorem openWidth_nil (tail : List Byte → List Byte) :
    OpenWidth (fun p => dict [("data", .ok (.bytes (tail p)))]) 0 tail where
  short _ h := absurd h (Nat.not_lt_zero _)
  long _ _ := ⟨[], rfl, fun _ => rfl⟩

theorem openWidth_cons {f : List Byte → Except PyException FieldValue}
    {rest : List Byte → List (String × Except PyException FieldValue)} {n m : Nat} {tail : List Byte → List Byte}
    (key : String) (hf : Width f n) (hrest : OpenWidth (fun p => dict (rest p)) m tail) :
    OpenWidth (fun p => dict ((key, f p) :: rest p)) (max n m) tail where
  short p h := by
    by_cases hn : p.length < n
    · exact dict_cons_error _ (hf.short p hn)
    · exact dict_cons_error_tail (hrest.short p (by omega))
  long p h := by
    obtain ⟨v, hv, hv'⟩ := hf.long p (by omega)
    obtain ⟨fs, hfs, hfs'⟩ := hrest.long p (by omega)
    refine ⟨(key, v) :: fs, ?_, fun c => ?_⟩
    · rw [hv]
      exact dict_cons_ok hfs
    · rw [hv' c]
      exact dict_cons_ok (hfs' c)

theorem OpenWidth.hidden_iff {n : Nat} {tail : List Byte → List Byte} (h : OpenWidth unpack n tail) :
    Hidden unpack p c ↔ p.length + 1 < n ∨ (n ≤ p.length ∧ tail (p ++ [c]) = tail p) := by
  by_cases hn : n ≤ p.length
  · obtain ⟨fs, hfs, hfs'⟩ := h.long p hn
    rw [hidden_of_ok hfs, hfs' c]
    simp only [Except.ok.injEq, List.append_cancel_left_eq, List.cons.injEq, Prod.mk.injEq, true_and, and_true,
      FieldValue.bytes.injEq, hn]
    exact ⟨Or.inr, fun h => h.resolve_left (by omega)⟩
  · obtain ⟨e, he⟩ := h.short p (by omega)
    rw [hidden_of_error he]
    constructor
    · rintro ⟨e', he'⟩
      by_cases hs : p.length + 1 < n
      · exact Or.inl hs
      · obtain ⟨fs, hfs, -⟩ := h.long (p ++ [c]) (by simp; omega)
        rw [hfs] at he'
        cases he'
    · rintro (hs | ⟨hs, -⟩)
      · exact h.short (p ++ [c]) (by simpa using hs)
      · exact absurd hs hn

section Special
open MessageDeclaration

theorem hidden_writeUntypedMemory : Hidden writeUntypedMemory.unpack p c ↔ p.length < 4 := by
  have h : OpenWidth writeUntypedMemory.unpack 5 (·.drop 5) :=
    openWidth_cons "address" (width_uint32 0) (openWidth_cons "size" (width_uint8 (by decide : 4 < 5))
      (openWidth_nil _))
  rw [h.hidden_iff]
  constructor
  · rintro (h | ⟨h, heq⟩)
    · omega
    · have := congrArg List.length heq
      simp at this
      omega
  · exact fun h => Or.inl (by omega)

/-- A page is read from one byte behind the address, up to 64 bytes. -/
theorem hidden_insertPage : Hidden insertPage.unpack p c ↔ p.length < 3 ∨ p.length = 4 ∨ 69 ≤ p.length := by
  have h : OpenWidth insertPage.unpack 4 (slice · 5 (5 + 64)) :=
    openWidth_cons "page_address" (width_uint32 0) (openWidth_nil _)
  rw [h.hidden_iff]
  constructor
  · rintro (h | ⟨h, heq⟩)
    · omega
    · have := congrArg List.length heq
      simp only [length_slice, List.length_append, List.length_singleton] at this
      omega
  · rintro (h | h | h)
    · exact Or.inl (by omega)
    · refine Or.inr ⟨by omega, ?_⟩
      show slice _ _ _ = slice _ _ _
      rw [slice_eq_nil_of_le _ _ _ (by simp; omega), slice_eq_nil_of_le _ _ _ (by omega)]
    · exact Or.inr ⟨by omega, slice_append_of_le _ _ _ _ (by omega)⟩

theorem hidden_replyExtractPage : Hidden replyExtractPage.unpack p c ↔ 64 ≤ p.length := by
  have h : OpenWidth replyExtractPage.unpack 0 (slice · 0 64) := openWidth_nil _
  rw [h.hidden_iff]
  constructor
  · rintro (h | ⟨-, heq⟩)
    · omega
    · have := congrArg List.length heq
      simp only [length_slice, List.length_append, List.length_singleton] at this
      omega
  · exact fun h => Or.inr ⟨by omega, slice_append_of_le _ _ _ _ h⟩

theorem hidden_replyReadUntypedMemory : ¬Hidden replyReadUntypedMemory.unpack p c := by
  have h : OpenWidth replyReadUntypedMemory.unpack 0 id := openWidth_nil id
  rw [h.hidden_iff]
  rintro (h | ⟨-, heq⟩)
  · omega
  · simp at heq

theorem hidden_setMemoryMap : Hidden setMemoryMap.unpack p c := by
  have fails : ∀ q, ∃ e, setMemoryMap.unpack q = .error e := fun q => by
    simp only [setMemoryMap, index, ord]
    cases q[0]? <;> exact ⟨_, rfl⟩
  obtain ⟨e, he⟩ := fails p
  exact (hidden_of_error he).mpr (fails _)

theorem zipIter4_length : ∀ l : List Byte, (zipIter4 l).length = l.length / 4
  | a :: b :: c :: d :: rest => by
    rw [zipIter4, List.length_cons, zipIter4_length rest]
    simp only [List.length_cons]
    omega
  | [] | [_] | [_, _] | [_, _, _] => by simp [zipIter4]

/-- Joining numbers fails, so a group of four bytes never gives a vector or an address. -/
theorem joinedUint32_eq (x : List Byte) : joinedUint32 x = .error .typeError := rfl

theorem mapM_joinedUint32 (l : List (List Byte)) :
    l.mapM joinedUint32 = if l.length = 0 then .ok [] else .error .typeError := by
  cases l with
  | nil => rfl
  | cons x l => simp [List.mapM_cons, joinedUint32_eq, bind, Except.bind]

/-- The exception configuration is read when it holds its numbers and less than one vector. -/
theorem setExceptionConfig_ok {q : List Byte} (h8 : 8 ≤ q.length) (h12 : q.length < 12) :
    setExceptionConfig.unpack q =
      .ok [("config", .int (ofLE (slice q 0 4))), ("irq_squelch", .int (ofLE (slice q 4 6))),
        ("fiq_squelch", .int (ofLE (slice q 6 8))), ("exceptions_vectors", .ints [])] := by
  have h32 := toUint32_slice q 0
  have h16 := toUint16_slice q 4
  have h16' := toUint16_slice q 6
  have hz : (zipIter4 (slice q 8 40)).length = 0 := by
    rw [zipIter4_length, length_slice]
    omega
  rw [if_pos (by omega)] at h32 h16 h16'
  simp only [setExceptionConfig, h32, h16, h16', mapM_joinedUint32, hz, if_true]
  rfl

theorem setExceptionConfig_error {q : List Byte} (h : q.length < 8 ∨ 12 ≤ q.length) :
    ∃ e, setExceptionConfig.unpack q = .error e := by
  refine dict_cons_error_tail (dict_cons_error_tail ?_)
  by_cases h8 : q.length < 8
  · exact dict_cons_error _ ((width_uint16 6).short q h8)
  · have hz : (zipIter4 (slice q 8 40)).length ≠ 0 := by
      rw [zipIter4_length, length_slice]
      omega
    refine dict_cons_error_tail (dict_cons_error _ ⟨.typeError, ?_⟩)
    simp [mapM_joinedUint32, hz, bind, Except.bind]

theorem hidden_setExceptionConfig : Hidden setExceptionConfig.unpack p c ↔ p.length ≠ 7 ∧ p.length ≠ 11 := by
  have hlen : (p ++ [c]).length = p.length + 1 := by simp
  by_cases h : p.length < 8 ∨ 12 ≤ p.length
  · obtain ⟨e, he⟩ := setExceptionConfig_error h
    rw [hidden_of_error he]
    constructor
    · rintro ⟨e', he'⟩
      by_contra h7
      rw [setExceptionConfig_ok (by omega) (by omega)] at he'
      cases he'
    · exact fun _ => setExceptionConfig_error (by omega)
  · rw [hidden_of_ok (setExceptionConfig_ok (by omega) (by omega))]
    constructor
    · intro heq
      by_contra h11
      obtain ⟨e, he⟩ := setExceptionConfig_error (q := p ++ [c]) (by omega)
      rw [he] at heq
      cases heq
    · intro h11
      rw [setExceptionConfig_ok (by omega) (by omega), slice_append_of_le _ _ _ _ (by omega),
        slice_append_of_le _ _ _ _ (by omega), slice_append_of_le _ _ _ _ (by omega)]

/-- The number of addresses is computed when the field is read; each of them then fails. -/
theorem replyGetDirtyPages_unpack (k : Byte) (q : List Byte) : replyGetDirtyPages.unpack (k :: q) =
    .ok [("addresses", .lazy (List.replicate (min (4 * k.toNat) q.length / 4) (.error .typeError)))] := by
  have hz : (zipIter4 (slice (k :: q) 1 (1 + 4 * k.toNat))).map joinedUint32 =
      List.replicate (min (4 * k.toNat) q.length / 4) (.error .typeError) := by
    rw [List.map_congr_left fun x _ => joinedUint32_eq x, List.map_const', zipIter4_length, length_slice]
    congr 2
    simp only [List.length_cons]
    omega
  simp [replyGetDirtyPages, index, hz, dict, bind, Except.bind]

theorem hidden_replyGetDirtyPages : Hidden replyGetDirtyPages.unpack p c ↔
    ∃ k q, p = k :: q ∧ ¬(4 ∣ p.length ∧ p.length ≤ 4 * k.toNat) := by
  cases p with
  | nil =>
    have he : replyGetDirtyPages.unpack [] = .error .indexError := rfl
    rw [hidden_of_error he, List.nil_append, replyGetDirtyPages_unpack]
    simp
  | cons k q =>
    rw [hidden_of_ok (replyGetDirtyPages_unpack k q), List.cons_append, replyGetDirtyPages_unpack]
    simp only [Except.ok.injEq, List.cons.injEq, Prod.mk.injEq, FieldValue.lazy.injEq, true_and, and_true,
      List.length_append, List.length_singleton]
    constructor
    · intro heq
      have := congrArg List.length heq
      simp only [List.length_replicate] at this
      refine ⟨k, q, ⟨rfl, rfl⟩, fun ⟨hd, hle⟩ => ?_⟩
      simp only [List.length_cons] at hd hle
      omega
    · rintro ⟨k', q', ⟨rfl, rfl⟩, hne⟩
      simp only [List.length_cons] at hne
      congr 1
      omega

/-- A short value is filled up with zeros, but only to the length that its first byte announces. -/
theorem replyReadMemory_unpack (k : Byte) (q : List Byte) : replyReadMemory.unpack (k :: q) =
    if min k.toNat 4 ≤ q.length then .ok [("value", .int (ofLE (q.take (min k.toNat 4))))]
    else .error .structError := by
  have hslice : slice (k :: q) 1 (1 + k.toNat) = q.take k.toNat := by
    rw [Nat.add_comm]
    rfl
  have hunpack : replyReadMemory.unpack (k :: q) =
      dict [("value", toUint32 (q.take k.toNat ++ List.replicate (4 - k.toNat) 0))] := by
    rw [← hslice]
    rfl
  rw [hunpack]
  unfold toUint32
  have hlen : (slice (q.take k.toNat ++ List.replicate (4 - k.toNat) 0) 0 4).length = 4 ↔
      min k.toNat 4 ≤ q.length := by
    simp only [length_slice, List.length_append, List.length_take, List.length_replicate]
    omega
  by_cases h : min k.toNat 4 ≤ q.length
  · rw [if_pos (hlen.mpr h), if_pos h]
    by_cases hk : k.toNat ≤ 4
    · rw [slice_zero_of_length_le _ _ (by simp; omega), ofLE_append, ofLE_replicate_zero, Nat.min_eq_left hk]
      rfl
    · have : slice (q.take k.toNat ++ List.replicate (4 - k.toNat) 0) 0 4 = q.take 4 := by
        simp [slice, show 4 - k.toNat = 0 by omega, List.take_take, Nat.min_eq_left (show 4 ≤ k.toNat by omega)]
      rw [this, Nat.min_eq_right (by omega)]
      rfl
  · rw [if_neg (fun h' => h (hlen.mp h')), if_neg h]
    rfl

theorem hidden_replyReadMemory (hc : p = [] → c.toNat ≠ 0) :
    Hidden replyReadMemory.unpack p c ↔ ∀ k q, p = k :: q → p.length ≠ min k.toNat 4 := by
  cases p with
  | nil =>
    have he : replyReadMemory.unpack [] = .error .indexError := rfl
    have hc' := hc rfl
    rw [hidden_of_error he, List.nil_append, replyReadMemory_unpack, if_neg (by simp; omega)]
    simp
  | cons k q =>
    simp only [List.cons.injEq, and_imp, List.length_cons]
    by_cases h : min k.toNat 4 ≤ q.length
    · have hok : replyReadMemory.unpack (k :: q) = _ := (replyReadMemory_unpack k q).trans (if_pos h)
      rw [hidden_of_ok hok, List.cons_append, replyReadMemory_unpack, if_pos (by simp; omega),
        List.take_append_of_le_length h]
      refine ⟨fun _ k' q' hk _ => ?_, fun _ => rfl⟩
      subst hk
      omega
    · have herr : replyReadMemory.unpack (k :: q) = _ := (replyReadMemory_unpack k q).trans (if_neg h)
      rw [hidden_of_error herr, List.cons_append, replyReadMemory_unpack]
      constructor
      · rintro ⟨e, he⟩ k' q' hk - heq
        subst hk
        rw [if_pos (by simp; omega)] at he
        cases he
      · intro hne
        have := hne k q rfl rfl
        exact ⟨.structError, by rw [if_neg (by simp; omega)]⟩

end Special

/-! ### The parser -/

/-- The outcome that the parser should have: `parse_message`, given `body` and its CRC, hands over the
    fields that the parser finds in `body`, and nothing when the parser fails there. -/
def CrcInvisible (body : List Byte) : Prop :=
  match parseAvatarMessage body with
  | .ok message => ∃ received, AvatarLowlevelProtocol.parseMessage (body ++ [crc8 body]) = some received ∧
      received.fields = message.fields
  | .error _ => AvatarLowlevelProtocol.parseMessage (body ++ [crc8 body]) = none

/-- The payloads `p` of the opcode `op` behind which the CRC byte stays invisible. -/
def Tolerates (op : Byte) (p : List Byte) : Prop :=
  match op with
  | 0x03 | 0x21 | 0xA0 | 0x81 | 0x82 | 0xB2 => p.length ≠ 0
  | 0x07 | 0x11 | 0x12 | 0xA4 | 0x91 => p.length ≠ 3
  | 0x01 | 0x04 | 0x05 => p.length ≠ 4
  | 0x02 => p.length ≠ 8
  | 0x06 => p.length < 4
  | 0x10 => p.length < 3 ∨ p.length = 4 ∨ 69 ≤ p.length
  | 0x20 => p.length ≠ 7 ∧ p.length ≠ 11
  | 0x90 => ∀ k q, p = k :: q → p.length ≠ min k.toNat 4
  | 0x92 => 64 ≤ p.length
  | 0x93 => ∃ k q, p = k :: q ∧ ¬(4 ∣ p.length ∧ p.length ≤ 4 * k.toNat)
  | 0x94 => False
  | _ => True

/-- The CRC that a frame carries always matches, so the parser gets the body and the CRC byte. -/
theorem parseMessage_append (body : List Byte) : AvatarLowlevelProtocol.parseMessage (body ++ [crc8 body]) =
    (parseAvatarMessage (body ++ [crc8 body])).toOption := by
  unfold AvatarLowlevelProtocol.parseMessage
  rw [AvatarLowlevelProtocol.crcMatches_append]
  cases parseAvatarMessage (body ++ [crc8 body]) <;> simp [Except.toOption]

theorem parseAvatarMessage_cons (op : Byte) (p : List Byte) : parseAvatarMessage (op :: p) =
    match messageDeclarations.lookup op with
    | none => .error (.unknownOpcode op)
    | some d =>
      match d.unpack p with
      | .ok fields => .ok { opcode := op, name := d.name, fields }
      | .error .indexError => .error .outOfData
      | .error e => .error e := rfl

theorem parseAvatarMessage_ok {op : Byte} {d : MessageDeclaration} {p : List Byte}
    {fields : List (String × FieldValue)} (hd : messageDeclarations.lookup op = some d) (h : d.unpack p = .ok fields) :
    parseAvatarMessage (op :: p) = .ok { opcode := op, name := d.name, fields } := by
  simp only [parseAvatarMessage_cons, hd, h]

theorem parseAvatarMessage_error {op : Byte} {d : MessageDeclaration} {p : List Byte}
    (hd : messageDeclarations.lookup op = some d) (h : ∃ e, d.unpack p = .error e) :
    ∃ e, parseAvatarMessage (op :: p) = .error e := by
  obtain ⟨e, he⟩ := h
  simp only [parseAvatarMessage_cons, hd, he]
  cases e <;> exact ⟨_, rfl⟩

theorem parseAvatarMessage_toOption {op : Byte} {d : MessageDeclaration} (hd : messageDeclarations.lookup op = some d)
    (p : List Byte) : (parseAvatarMessage (op :: p)).toOption =
      (d.unpack p).toOption.map fun fields => { opcode := op, name := d.name, fields } := by
  cases h : d.unpack p with
  | ok fields =>
    rw [parseAvatarMessage_ok hd h]
    rfl
  | error e =>
    obtain ⟨e', he'⟩ := parseAvatarMessage_error hd ⟨e, h⟩
    rw [he']
    rfl

/-- The CRC byte is invisible to the parser exactly when it is to the unpack function. -/
theorem crcInvisible_cons {op : Byte} {d : MessageDeclaration} (p : List Byte)
    (hd : messageDeclarations.lookup op = some d) :
    CrcInvisible (op :: p) ↔ Hidden d.unpack p (crc8 (op :: p)) := by
  unfold CrcInvisible
  rw [parseMessage_append, List.cons_append, parseAvatarMessage_toOption hd]
  cases hp : d.unpack p with
  | ok fields =>
    rw [parseAvatarMessage_ok hd hp, hidden_of_ok hp]
    cases d.unpack (p ++ [crc8 (op :: p)]) <;> simp [Except.toOption]
  | error e =>
    obtain ⟨e', he'⟩ := parseAvatarMessage_error hd ⟨e, hp⟩
    rw [he', hidden_of_error hp]
    cases d.unpack (p ++ [crc8 (op :: p)]) <;> simp [Except.toOption]

section Table
open MessageDeclaration

/-- Each declaration of the table hides the CRC byte behind the payloads that its opcode tolerates. -/
theorem hidden_iff_tolerates {op : Byte} {d : MessageDeclaration} (hd : (op, d) ∈ messageDeclarations)
    (p : List Byte) : Hidden d.unpack p (crc8 (op :: p)) ↔ Tolerates op p := by
  have succ : ∀ n, p.length + 1 ≠ n + 1 ↔ p.length ≠ n := by omega
  have nothing : ∀ c, Hidden (fun _ => dict []) p c ↔ True := fun c => iff_of_true rfl trivial
  have uint8 : ∀ key c, Hidden (fun p => dict [(key, toUint8 (slice p 0 1))]) p c ↔ p.length ≠ 0 := fun key c =>
    (width_cons key (width_uint8 (by decide : 0 < 1)) width_nil).hidden_iff.trans (succ 0)
  have uint32 : ∀ key c, Hidden (fun p => dict [(key, toUint32 (slice p 0 4))]) p c ↔ p.length ≠ 3 := fun key c =>
    (width_cons key (width_uint32 0) width_nil).hidden_iff.trans (succ 3)
  have addressSize : ∀ c, Hidden (fun p => dict [("address", toUint32 (slice p 0 4)),
      ("size", toUint8 (slice p 4 5))]) p c ↔ p.length ≠ 4 := fun c =>
    (width_cons "address" (width_uint32 0) (width_cons "size" (width_uint8 (by decide : 4 < 5)) width_nil)).hidden_iff.trans
      (succ 4)
  revert op d
  apply declarations_cases
  case readMemory => exact addressSize _
  case writeMemory => exact (width_cons "address" (width_uint32 0) (width_cons "size" (width_uint8 (by decide : 4 < 5))
      (width_cons "value" (width_uint32 5) width_nil))).hidden_iff.trans (succ 8)
  case getRegister => exact uint8 _ _
  case setRegister => exact (width_cons "register" (width_uint8 (by decide : 0 < 1))
      (width_cons "value" (width_uint32 1) width_nil)).hidden_iff.trans (succ 4)
  case readUntypedMemory => exact addressSize _
  case writeUntypedMemory => exact hidden_writeUntypedMemory
  case codeletExecute => exact uint32 _ _
  case insertPage => exact hidden_insertPage
  case extractPage => exact uint32 _ _
  case unmapPage => exact uint32 _ _
  case setMemoryMap => exact iff_of_true hidden_setMemoryMap trivial
  case getDirtyPages => exact nothing _
  case setExceptionConfig => exact hidden_setExceptionConfig
  case clearException => exact (width_cons "exception" (width_uint8 (by decide : 0 < 4)) width_nil).hidden_iff.trans (succ 0)
  case resumeVm => exact nothing _
  case queryState => exact nothing _
  case continueFromPagefault => exact nothing _
  case infoException => exact uint8 _ _
  case pagefault => exact uint32 _ _
  case state => exact uint8 _ _
  case replyState => exact uint8 _ _
  case replyOk => exact nothing _
  case replyError => exact uint8 _ _
  case replyReadMemory => exact hidden_replyReadMemory fun h => by rw [h]; decide
  case replyGetRegister => exact uint32 _ _
  case replyExtractPage => exact hidden_replyExtractPage
  case replyGetDirtyPages => exact hidden_replyGetDirtyPages
  case replyReadUntypedMemory => exact iff_of_false hidden_replyReadUntypedMemory id
  case replyCodeletExecutionFinished => exact nothing _

end Table

theorem tolerates_of_unknown {op : Byte} (hd : messageDeclarations.lookup op = none) (p : List Byte) :
    Tolerates op p := by
  unfold Tolerates
  split <;> trivial

/-- The CRC byte is not part of the message exactly for the payloads that its opcode tolerates. -/
theorem crcInvisible_iff (op : Byte) (p : List Byte) : CrcInvisible (op :: p) ↔ Tolerates op p := by
  cases hd : messageDeclarations.lookup op with
  | some d => exact (crcInvisible_cons p hd).trans (hidden_iff_tolerates (mem_of_lookup hd) p)
  | none =>
    refine iff_of_true ?_ (tolerates_of_unknown hd p)
    unfold CrcInvisible
    rw [parseMessage_append, List.cons_append]
    simp only [parseAvatarMessage_cons, hd]
    rfl

/-- The untyped reply without data is handed over with one byte of data, its CRC. -/
theorem crc_visible : ¬∀ body : List Byte, body ≠ [] → CrcInvisible body := by
  intro h
  obtain ⟨received, hreceived, hfields⟩ := h [0x94] (by decide)
  have handed : AvatarLowlevelProtocol.parseMessage ([0x94] ++ [crc8 [0x94]]) =
      some ⟨0x94, "AVATAR_RPC_DTH_REPLY_READ_UNTYPED_MEMORY", [("data", .bytes [crc8 [0x94]])]⟩ := rfl
  rw [handed] at hreceived
  cases hreceived
  simp at hfields

end MessageCrc

end Avatar
