import Avatar.Gdb.Protocol
import Avatar.Theorems.GdbReplies

/-! Reading memory through GDB packets. The client writes the length in base sixteen and the server reads it in base
    ten, so a length of one decimal digit is the only one that both understand alike. -/

namespace Avatar.GdbServer
open Bytes GdbProtocol StateExcept

variable {σ β : Type} {debuggable : Debuggable σ β} {memory : σ → Memory} {s : GdbServer σ β} {address n : Nat}

/-- The debuggable has a byte-addressed memory, and reads its words little-endian. -/
structure Backed (debuggable : Debuggable σ β) (memory : σ → Memory) : Prop where
  typed : ∀ (address size : Nat) (d : σ), (size : Int) ∈ ([1, 2, 4] : List Int) →
    (debuggable.readTypedMemory address size d).1 = ofLE ((memory d).load address size)
  untyped : ∀ (address length : Nat) (d : σ),
    (debuggable.readUntypedMemory address length d).1 = (memory d).load address length

/-! ### The request -/

/-- The arguments of the request, as the server splits them. -/
theorem field_request (address length : Nat) :
    field (Numeral.hex address ++ ',' :: Numeral.hex length) ',' 0 = .ok (Numeral.hex address) ∧
    field (Numeral.hex address ++ ',' :: Numeral.hex length) ',' 1 = .ok (Numeral.hex length) := by
  have hsplit : (Numeral.hex address ++ ',' :: Numeral.hex length).splitOn ',' =
      [Numeral.hex address, Numeral.hex length] := by
    rw [List.splitOn_append_cons_self_of_not_mem (Numeral.notMem_hex rfl _),
      List.splitOn_eq_singleton (Numeral.notMem_hex rfl _)]
  rw [field, field, hsplit]
  exact ⟨rfl, rfl⟩

theorem intField_address (address length : Nat) :
    intField (Numeral.hex address ++ ',' :: Numeral.hex length) ',' 0 16 = .ok (address : Int) := by
  rw [intField, (field_request address length).1]
  show int (Numeral.hex address) 16 = _
  rw [int, Numeral.parse_hex]

/-- The length that the server reads. -/
theorem intField_length (address length : Nat) :
    intField (Numeral.hex address ++ ',' :: Numeral.hex length) ',' 1 10 =
      match Numeral.unprefixed 10 (Numeral.hex length) with
      | some v => .ok (v : Int)
      | none => .error .valueError := by
  rw [intField, (field_request address length).2]
  show int (Numeral.hex length) 10 = _
  rw [int, Numeral.parse_hex_eq]
  cases Numeral.unprefixed 10 (Numeral.hex length) <;> rfl

/-! ### The server -/

theorem pack_ofLE (data : List Byte) : pack data.length (ofLE data) = .ok data := by
  have hlt : (ofLE data : Int) < 256 ^ data.length := by exact_mod_cast ofLE_lt data
  refine pack_eq_ok.mpr ⟨⟨Int.natCast_nonneg _, hlt⟩, ?_⟩
  rw [Int.toNat_natCast, toLE_ofLE]

/-- The reply to a request whose length the server reads as `length`, typed or not. -/
theorem readMemory_reply (h : Backed debuggable memory) {arguments : List Char} {length : Nat}
    (haddress : intField arguments ',' 0 16 = .ok (address : Int))
    (hlength : intField arguments ',' 1 10 = .ok (length : Int)) : ∃ s',
      readMemory debuggable arguments s = .ok () s' ∧
      s'.sent = s.sent ++ [hexBytes ((memory s.debuggable).load address length)] := by
  rw [readMemory, bind_ok (raises_ok haddress), bind_ok (raises_ok hlength)]
  by_cases hsize : (length : Int) ∈ ([1, 2, 4] : List Int)
  · have hpack := pack_ofLE ((memory s.debuggable).load address length)
    rw [Memory.length_load, ← h.typed address length s.debuggable hsize] at hpack
    rw [if_pos hsize, debuggee_bind, Int.toNat_natCast, bind_ok (raises_ok hpack),
      sendMessage_ok (isAscii_hexBytes _)]
    exact ⟨_, rfl, rfl⟩
  · have huntyped := h.untyped address length s.debuggable
    rw [if_neg hsize, debuggee_bind, huntyped, sendMessage_ok (isAscii_hexBytes _)]
    exact ⟨_, rfl, rfl⟩

/-! ### The client -/

theorem length_hexBytes (data : List Byte) : (hexBytes data).length = 2 * data.length := by
  induction data with
  | nil => rfl
  | cons b data ih =>
    have hlen : (Numeral.hex2 b.toNat).length = 2 := by
      rw [Numeral.hex2_of_lt b.isLt]
      rfl
    rw [hexBytes, List.flatMap_cons, List.length_append, hlen, List.length_cons]
    show 2 + (hexBytes data).length = _
    rw [ih]
    ring

theorem hexPairs_hexBytes (data : List Byte) :
    hexPairs (hexBytes data) = .ok (data.map fun b => (b.toNat : Int)) := by
  induction data with
  | nil => rfl
  | cons b data ih =>
    have hgroups : groups₂ (hexBytes (b :: data)) = Numeral.hex2 b.toNat :: groups₂ (hexBytes data) := by
      rw [hexBytes, List.flatMap_cons, Numeral.hex2_of_lt b.isLt]
      rfl
    have hint : int (Numeral.hex2 b.toNat) 16 = .ok (b.toNat : Int) := by
      rw [int, Numeral.parse_hex2 b.isLt]
    rw [hexPairs, hgroups, List.mapM_cons, hint]
    show (hexPairs (hexBytes data)).bind _ = _
    rw [ih]
    rfl

/-- Numbers that come from bytes are made bytes again. -/
theorem toBytes_toNat (data : List Byte) : toBytes (data.map fun b => (b.toNat : Int)) = .ok data := by
  have hrange : ∀ v ∈ data.map fun b => (b.toNat : Int), 0 ≤ v ∧ v < 256 := by
    intro v hv
    obtain ⟨b, -, rfl⟩ := List.mem_map.mp hv
    exact ⟨Int.natCast_nonneg _, by exact_mod_cast b.isLt⟩
  rw [toBytes, if_pos hrange, List.map_map]
  refine congrArg Except.ok ((List.map_congr_left fun b _ => ?_).trans (List.map_id data))
  show BitVec.ofInt 8 (b.toNat : Int) = b
  rw [BitVec.ofInt_natCast, BitVec.ofNat_toNat, BitVec.setWidth_eq]

/-- The digits of as many bytes as the client has asked for. -/
theorem readMemoryResult_hexBytes (data : List Byte) :
    readMemoryResult data.length (hexBytes data) = .ok (data.map fun b => (b.toNat : Int)) := by
  have hodd : ¬((hexBytes data).length = 3 ∧ (hexBytes data)[0]? = some 'E') := by
    rw [length_hexBytes]
    omega
  have hlen : ¬(((hexBytes data).length : Int) ≠ 2 * data.length) := by
    rw [length_hexBytes]
    omega
  rw [readMemoryResult, if_neg hodd, if_neg hlen, hexPairs_hexBytes]

/-! ### Both -/

/-- The server answers the request of `read_memory` with the digits of the bytes that it asks for, of which
    `read_memory` makes these bytes. -/
def ReadsBack (debuggable : Debuggable σ β) (memory : σ → Memory) (s : GdbServer σ β) (address n : Nat) : Prop :=
  ∃ s', messageReceived debuggable (readMemoryMessage address n) s = .ok () s' ∧
    s'.sent = s.sent ++ [hexBytes ((memory s.debuggable).load address n)] ∧
    readMemoryResult n (hexBytes ((memory s.debuggable).load address n)) =
      .ok (((memory s.debuggable).load address n).map fun b => (b.toNat : Int))

theorem messageReceived_request (address n : Nat) : messageReceived debuggable (readMemoryMessage address n) =
    readMemory debuggable (Numeral.hex address ++ ',' :: Numeral.hex n) := by
  have hmessage : readMemoryMessage address n = 'm' :: (Numeral.hex address ++ ',' :: Numeral.hex n) := by
    simp [readMemoryMessage, Numeral.hexInt]
  rw [hmessage]
  rfl

/-- A server that reads another length replies with the digits of so many bytes. -/
theorem not_readsBack_of_read (h : Backed debuggable memory) {v : Nat}
    (hread : Numeral.unprefixed 10 (Numeral.hex n) = some v) (hne : v ≠ n) :
    ¬ReadsBack debuggable memory s address n := by
  rintro ⟨s', hrun, hsent, -⟩
  have hlength := intField_length address n
  rw [hread] at hlength
  obtain ⟨s'', hrun', hsent'⟩ := readMemory_reply (s := s) h (intField_address address n) hlength
  rw [messageReceived_request] at hrun
  cases hrun.symm.trans hrun'
  have hreply := congrArg List.length (List.singleton_inj.mp (List.append_cancel_left (hsent.symm.trans hsent')))
  rw [length_hexBytes, length_hexBytes, Memory.length_load, Memory.length_load] at hreply
  exact hne (Nat.eq_of_mul_eq_mul_left (by decide) hreply).symm

theorem not_readsBack_of_not_read (hread : Numeral.unprefixed 10 (Numeral.hex n) = none) :
    ¬ReadsBack debuggable memory s address n := by
  rintro ⟨s', hrun, -⟩
  have hlength := intField_length address n
  rw [hread] at hlength
  rw [messageReceived_request, readMemory, bind_ok (raises_ok (intField_address address n)),
    bind_error (raises_error hlength)] at hrun
  cases hrun

/-- Reading works exactly for lengths of one decimal digit. -/
theorem readsBack_iff (h : Backed debuggable memory) (hn : 1 ≤ n) :
    ReadsBack debuggable memory s address n ↔ n ≤ 9 := by
  constructor
  · intro hback
    by_contra hlarge
    cases hread : Numeral.unprefixed 10 (Numeral.hex n) with
    | none => exact not_readsBack_of_not_read hread hback
    | some v =>
      have hlt := (Numeral.unprefixed_toDigits_lt (by decide) (by decide) (by decide) hread).2 (by omega)
      exact not_readsBack_of_read h hread (Nat.ne_of_lt hlt) hback
  · intro hsmall
    have hread : Numeral.unprefixed 10 (Numeral.hex n) = some n := by
      rw [Numeral.hex, Numeral.unprefixed_digit 10 (by omega), Numeral.digit_digitChar (by decide) (by omega)]
    have hlength := intField_length address n
    rw [hread] at hlength
    obtain ⟨s', hrun, hsent⟩ := readMemory_reply (s := s) h (intField_address address n) hlength
    have hresult := readMemoryResult_hexBytes ((memory s.debuggable).load address n)
    rw [Memory.length_load] at hresult
    rw [← messageReceived_request] at hrun
    exact ⟨s', hrun, hsent, hresult⟩

/-- A debuggable that is only a memory -/
def memoryDebuggable : Debuggable Memory Unit where
  readTypedMemory address size m := (ofLE (m.load address.toNat size.toNat), m)
  readUntypedMemory address length m := (m.load address.toNat length.toNat, m)
  writeTypedMemory address size value m := ((), m.store address.toNat (toLE size.toNat value.toNat))
  writeUntypedMemory address data m := ((), m.store address.toNat data)
  getRegister _ := pure 0
  getRegisterFromNr _ := pure 0
  setRegister _ _ := pure ()
  setBreakpoint _ := pure ()
  delete _ := pure ()
  cont := pure ()
  stepi := pure ()

theorem memoryDebuggable_backed : Backed memoryDebuggable id where
  typed _ _ _ _ := rfl
  untyped _ _ _ := rfl

/-- A word -/
theorem readsBack_iff_word : ReadsBack memoryDebuggable id ⟨fun a => BitVec.ofNat 8 a, ∅, []⟩ 0x8001 4 ↔ 4 ≤ 9 :=
  readsBack_iff memoryDebuggable_backed (by decide)

/-- Sixteen bytes: the request says `10`, and the server reads ten. -/
theorem not_readsBack_sixteen :
    ¬ReadsBack memoryDebuggable id ⟨fun a => BitVec.ofNat 8 a, ∅, []⟩ 0x8001 16 :=
  not_readsBack_of_read memoryDebuggable_backed (show Numeral.unprefixed 10 (Numeral.hex 16) = some 10 from rfl)
    (by decide)

end Avatar.GdbServer
