import Avatar.Theorems.GdbMemory

/-! Writing memory through GDB packets. The bytes travel as pairs of digits and are put together again, for one, two
    and four of them through a number that a typed write takes apart in memory; what is stored is the same. -/

namespace Avatar.GdbServer
open Bytes GdbPackets GdbProtocol StateExcept

variable {σ β : Type} {debuggable : Debuggable σ β} {memory : σ → Memory} {s : GdbServer σ β} {address : Nat}
  {v : List Byte}

/-- A typed write stores the bytes of its value, the lowest first, and an untyped write is the one that
    `Debuggable` defines. -/
structure Stores (debuggable : Debuggable σ β) (memory : σ → Memory) : Prop where
  typed : ∀ (address size value : Nat) (d : σ), (size : Int) ∈ ([1, 2, 4] : List Int) → value < 256 ^ size →
    memory (debuggable.writeTypedMemory address size value d).2 = (memory d).store address (toLE size value)
  untyped : ∀ (address : Int) (data : List Byte), debuggable.writeUntypedMemory address data =
    Avatar.Debuggable.writeUntypedMemory debuggable.writeTypedMemory address data

/-- The text of the packet that `write_memory` sends for bytes. -/
def writePacket (address : Nat) (v : List Byte) : List Char := writeMemoryMessage address (v.map Ascii.char)

/-! ### The request -/

theorem writePacket_eq (address : Nat) (v : List Byte) : writePacket address v =
    'M' :: ((Numeral.hex address ++ ',' :: Numeral.hex v.length) ++ ':' :: hexBytes v) := by
  have hdigits : (v.map Ascii.char).flatMap (fun x => Numeral.hex2 x.toNat) = hexBytes v := by
    rw [List.flatMap_map, hexBytes]
    exact congrArg (List.flatMap · v) (funext fun b => by rw [Ascii.toNat_char])
  simp [writePacket, writeMemoryMessage, hdigits, Numeral.hexInt]

theorem notMem_hexBytes {c : Char} (h : Numeral.digitValue c = none) (v : List Byte) : c ∉ hexBytes v := by
  intro hmem
  obtain ⟨b, -, hc⟩ := List.mem_flatMap.mp hmem
  rw [Numeral.hex2_of_lt b.isLt] at hc
  have hlt : b.toNat < 256 := b.isLt
  rcases List.mem_pair.mp hc with rfl | rfl
  · exact Numeral.digitChar_ne (Nat.div_lt_of_lt_mul hlt) h rfl
  · exact Numeral.digitChar_ne (Nat.mod_lt _ (by decide)) h rfl

theorem isAscii_hex (n : Nat) : Ascii.IsAscii (Numeral.hex n) := by
  intro c hc
  obtain ⟨d, hd, rfl⟩ := Numeral.mem_toDigits (by decide) hc
  exact toNat_digitChar_lt d hd

/-- The request fits into a packet. -/
def writePayload (address : Nat) (v : List Byte) : Payload where
  text := writePacket address v
  isAscii := by
    rw [writePacket_eq]
    simp only [Ascii.IsAscii, List.forall_mem_cons, List.forall_mem_append]
    exact ⟨by decide, ⟨isAscii_hex _, by decide, isAscii_hex _⟩, by decide, isAscii_hexBytes v⟩
  start_notMem := by
    rw [writePacket_eq]
    simp [Numeral.notMem_hex, notMem_hexBytes, Numeral.digitValue]
  end_notMem := by
    rw [writePacket_eq]
    simp [Numeral.notMem_hex, notMem_hexBytes, Numeral.digitValue]

/-- The arguments, as the server splits them. -/
theorem field_write (address : Nat) (v : List Byte) :
    field ((Numeral.hex address ++ ',' :: Numeral.hex v.length) ++ ':' :: hexBytes v) ':' 0 =
      .ok (Numeral.hex address ++ ',' :: Numeral.hex v.length) ∧
    field ((Numeral.hex address ++ ',' :: Numeral.hex v.length) ++ ':' :: hexBytes v) ':' 1 = .ok (hexBytes v) := by
  have hcolon : ':' ∉ Numeral.hex address ++ ',' :: Numeral.hex v.length := by
    simp [Numeral.notMem_hex, Numeral.digitValue]
  have hsplit : ((Numeral.hex address ++ ',' :: Numeral.hex v.length) ++ ':' :: hexBytes v).splitOn ':' =
      [Numeral.hex address ++ ',' :: Numeral.hex v.length, hexBytes v] := by
    rw [List.splitOn_append_cons_self_of_not_mem hcolon,
      List.splitOn_eq_singleton (notMem_hexBytes rfl v)]
  rw [field, field, hsplit]
  exact ⟨rfl, rfl⟩

theorem intField_size (address length : Nat) :
    intField (Numeral.hex address ++ ',' :: Numeral.hex length) ',' 1 16 = .ok (length : Int) := by
  rw [intField, (field_request address length).2]
  show int (Numeral.hex length) 16 = _
  rw [int, Numeral.parse_hex]

/-- The digits of bytes are read back as these bytes. -/
theorem hexPairs_toBytes (v : List Byte) : hexPairs (hexBytes v) >>= toBytes = .ok v := by
  rw [hexPairs_hexBytes]
  exact toBytes_toNat v

/-! ### The debuggable -/

/-- Byte by byte, the untyped write stores the bytes. -/
theorem writeUntyped_run (h : Stores debuggable memory) (address : Nat) (v : List Byte) (d : σ) :
    memory (Avatar.Debuggable.writeUntypedMemory debuggable.writeTypedMemory address v d).2 =
      (memory d).store address v := by
  induction v generalizing address d with
  | nil => exact (Memory.store_nil _ _).symm
  | cons b rest ih =>
    have hsingle : toLE 1 b.toNat = [b] := toLE_ofLE [b]
    have hbyte : memory (debuggable.writeTypedMemory address 1 b.toNat d).2 = _ :=
      h.typed address 1 b.toNat d (.head _) b.isLt
    have hcast : (address : Int) + 1 = ((address + 1 : Nat) : Int) := rfl
    show memory (Avatar.Debuggable.writeUntypedMemory debuggable.writeTypedMemory (address + 1) rest
      (debuggable.writeTypedMemory address 1 b.toNat d).2).2 = _
    rw [hcast, ih, hbyte, hsingle, ← Memory.store_cons]

/-! ### The server -/

/-- The server stores the bytes, on either path, and replies. -/
theorem writeMemory_reply (h : Stores debuggable memory) (address : Nat) (v : List Byte) (s : GdbServer σ β) : ∃ d,
    writeMemory debuggable ((Numeral.hex address ++ ',' :: Numeral.hex v.length) ++ ':' :: hexBytes v) s =
      .ok () { s with debuggable := d, sent := s.sent ++ ["OK".toList] } ∧
    memory d = (memory s.debuggable).store address v := by
  obtain ⟨hfirst, hsecond⟩ := field_write address v
  have hok : Ascii.IsAscii "OK".toList := by decide
  rw [writeMemory, bind_ok (raises_ok hfirst), bind_ok (raises_ok (intField_address address v.length)),
    bind_ok (raises_ok (intField_size address v.length)), bind_ok (raises_ok hsecond),
    bind_ok (raises_ok (hexPairs_toBytes v)), if_pos rfl]
  by_cases hsize : (v.length : Int) ∈ ([1, 2, 4] : List Int)
  · have htyped := h.typed address v.length (ofLE v) s.debuggable hsize (ofLE_lt v)
    rw [toLE_ofLE] at htyped
    rw [if_pos hsize, debuggee_bind]
    exact ⟨_, sendMessage_ok hok, htyped⟩
  · have huntyped := writeUntyped_run h address v s.debuggable
    rw [← h.untyped] at huntyped
    rw [if_neg hsize, debuggee_bind]
    exact ⟨_, sendMessage_ok hok, huntyped⟩

/-- What the server should do with the packet: byte `address + i` becomes `v[i]`, no other byte changes, and the only
    reply is OK. -/
structure WritesExactly (memory : σ → Memory) (address : Nat) (v : List Byte) (s s' : GdbServer σ β) : Prop where
  written : ∀ i (h : i < v.length), memory s'.debuggable (address + i) = v[i]
  others : ∀ a, a < address ∨ address + v.length ≤ a → memory s'.debuggable a = memory s.debuggable a
  replied : s'.sent = s.sent ++ ["OK".toList]
  breakpoints : s'.breakpoints = s.breakpoints

theorem writesExactly_of_store {s' : GdbServer σ β} (h : memory s'.debuggable = (memory s.debuggable).store address v)
    (hsent : s'.sent = s.sent ++ ["OK".toList]) (hbreakpoints : s'.breakpoints = s.breakpoints) :
    WritesExactly memory address v s s' where
  written i hi := by rw [h, Memory.store_at_of_lt _ _ _ hi]
  others a ha := by
    rw [h]
    rcases ha with ha | ha
    · exact Memory.store_of_lt _ _ _ ha
    · obtain ⟨i, rfl⟩ : ∃ i, a = address + i := ⟨a - address, by omega⟩
      exact Memory.store_at_of_le _ _ _ (by omega)
  replied := hsent
  breakpoints := hbreakpoints

/-- The packet of a memory write arrives in whatever chunks and state it finds the receiver, and the server stores
    exactly its bytes. The client takes the reply. -/
theorem write_packet_stores (h : Stores debuggable memory) (address : Nat) (v : List Byte) (s : GdbServer σ β) :
    ∃ packet, GdbProtocol.sendMessage (writePacket address v) = .ok packet ∧
      (∀ (r : GdbLowlevelProtocol.RunState) (chunks : List (List Byte)), chunks.flatten = packet →
        ∃ r', GdbLowlevelProtocol.run r chunks = .ok r' ∧ r'.received = r.received ++ [writePacket address v]) ∧
      (∃ s', messageReceived debuggable (writePacket address v) s = .ok () s' ∧ WritesExactly memory address v s s') ∧
      writeMemoryResult "OK".toList = .ok () := by
  have hne : (writePayload address v).text ≠ [] := by
    show writePacket address v ≠ []
    rw [writePacket_eq]
    exact List.cons_ne_nil _ _
  refine ⟨(writePayload address v).packet, sendMessage_eq hne, fun r chunks hchunks => ?_, ?_, rfl⟩
  · rw [run_eq_foldlM, hchunks, foldlM_packet]
    exact ⟨_, rfl, rfl⟩
  · obtain ⟨d, hrun, hmemory⟩ := writeMemory_reply h address v s
    have hmessage : messageReceived debuggable (writePacket address v) s =
        .ok () { s with debuggable := d, sent := s.sent ++ ["OK".toList] } := by
      rw [writePacket_eq]
      exact hrun
    exact ⟨_, hmessage, writesExactly_of_store hmemory rfl rfl⟩

/-- A debuggable that stores words, and leaves the rest to `Debuggable` -/
def wordDebuggable : Debuggable Memory Unit where
  __ := memoryDebuggable
  writeUntypedMemory := Avatar.Debuggable.writeUntypedMemory memoryDebuggable.writeTypedMemory

theorem wordDebuggable_stores : Stores wordDebuggable id where
  typed _ _ _ _ _ _ := rfl
  untyped _ _ := rfl

/-- Three bytes go byte by byte. -/
theorem write_packet_stores_three :
    ∃ packet, GdbProtocol.sendMessage (writePacket 0x8001 [0x00, 0x7F, 0xFF]) = .ok packet ∧
      (∀ (r : GdbLowlevelProtocol.RunState) (chunks : List (List Byte)), chunks.flatten = packet →
        ∃ r', GdbLowlevelProtocol.run r chunks = .ok r' ∧
          r'.received = r.received ++ [writePacket 0x8001 [0x00, 0x7F, 0xFF]]) ∧
      (∃ s', messageReceived wordDebuggable (writePacket 0x8001 [0x00, 0x7F, 0xFF]) ⟨fun _ => 0, ∅, []⟩ = .ok () s' ∧
        WritesExactly id 0x8001 [0x00, 0x7F, 0xFF] ⟨fun _ => 0, ∅, []⟩ s') ∧
      writeMemoryResult "OK".toList = .ok () :=
  write_packet_stores wordDebuggable_stores 0x8001 [0x00, 0x7F, 0xFF] ⟨fun _ => 0, ∅, []⟩

end Avatar.GdbServer
