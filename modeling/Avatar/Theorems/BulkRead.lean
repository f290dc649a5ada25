import Avatar.Theorems.TypedAccess

/-! Reading a byte string through the stub link. The reply to an untyped read has no length, so its data is all that
    the parser gets behind the opcode, and the last byte of that is the CRC of the frame. -/

namespace Avatar
open Bytes AvatarLowlevelProtocol MessageCrc TargetM

namespace BulkRead
open TypedAccess (firmware firmware_frames)

variable {σ : Type} {device : Device σ} {handle : List Byte → σ → List Byte × σ} {memory : σ → Memory}
  {address length : Nat}

/-- The stub answers both commands with the bytes of its memory, and keeps it. -/
structure LoadsBytes (handle : List Byte → σ → List Byte × σ) (memory : σ → Memory) : Prop where
  byte : ∀ (address : Nat) (s : σ), address < 2 ^ 32 → ∃ next,
    handle (0x01 :: (toLE 4 address ++ [0x01])) s = (0x90 :: 0x01 :: (memory s).load address 1, next) ∧
    memory next = memory s
  untyped : ∀ (address length : Nat) (s : σ), address < 2 ^ 32 → length ≤ 255 → ∃ next,
    handle (0x05 :: (toLE 4 address ++ [BitVec.ofNat 8 length])) s = (0x94 :: (memory s).load address length, next) ∧
    memory next = memory s

/-- Both reads return, and the same bytes. -/
def ReadsAlike (stub : Stub σ) (address length : Nat) (link : Link σ) : Prop :=
  ∃ data bulk bytewise,
    AvatarstubTarget.readUntypedMemory stub address length link = some (.ok (some (.bytes data)), bulk) ∧
    AvatarstubTarget.debuggableReadUntypedMemory stub address length link = some (.ok data, bytewise)

/-! ### The untyped read -/

theorem serializes_readMemoryUntyped (h : address < 2 ^ 32) (hlength : length ≤ 255) :
    (Operation.readMemoryUntyped address length).Serializes (0x05 :: (toLE 4 address ++ [BitVec.ofNat 8 length])) := by
  have hsize : (length : Int) ≤ 255 := by exact_mod_cast hlength
  exact ⟨_, if_pos hsize, serialize_eq (d := .readUntypedMemory) (mem_of_lookup rfl)
    (readMemory_pack rfl (fromUint32_natCast h) rfl (fromUint8_natCast length))⟩

theorem parse_replyReadUntypedMemory (data : List Byte) (crc : Byte) : parseAvatarMessage (0x94 :: data ++ [crc]) =
    .ok ⟨0x94, "AVATAR_RPC_DTH_REPLY_READ_UNTYPED_MEMORY", [("data", .bytes (data ++ [crc]))]⟩ := rfl

/-- The bytes of the memory arrive, and behind them the CRC. -/
theorem readUntypedMemory_run (hframes : device.Frames handle) (h : LoadsBytes handle memory)
    (haddress : address < 2 ^ 32) (hlength : length ≤ 255) (link : Link σ) : ∃ crc link',
      AvatarstubTarget.readUntypedMemory device.stub address length link =
        some (.ok (some (.bytes ((memory link.stub).load address length ++ [crc]))), link') := by
  obtain ⟨next, hhandle, -⟩ := h.untyped address length link.stub haddress hlength
  have hstub := TypedAccess.stub_of_frames hframes hhandle (parse_replyReadUntypedMemory _ _)
  obtain ⟨sent, hcall⟩ := call_of_serializes (serializes_readMemoryUntyped haddress hlength) hstub rfl
  exact ⟨_, _, hcall⟩

/-- A longer read is not split. -/
theorem readUntypedMemory_assertionError (hlength : 255 < length) (stub : Stub σ) (link : Link σ) :
    AvatarstubTarget.readUntypedMemory stub address length link = some (.error (.python .assertionError), link) := by
  have hsize : ¬(length : Int) ≤ 255 := by
    rw [not_le]
    exact_mod_cast hlength
  simp only [AvatarstubTarget.readUntypedMemory, AvatarProtocol.call, Operation.message, if_neg hsize]

/-! ### The byte-wise read -/

theorem readTypedMemory_run (hframes : device.Frames handle) (h : LoadsBytes handle memory) (haddress : address < 2 ^ 32)
    (link : Link σ) : ∃ link',
    AvatarstubTarget.readTypedMemory device.stub address 1 link =
      some (.ok (some (.int ((memory link.stub) address).toNat)), link') ∧
    memory link'.stub = memory link.stub := by
  obtain ⟨next, hhandle, hnext⟩ := h.byte address link.stub haddress
  have hlength : ((memory link.stub).load address 1).length = TypedAccess.AccessSize.byte.bytes := Memory.length_load _ _ _
  have hstub := TypedAccess.stub_of_frames hframes hhandle (TypedAccess.parse_replyReadMemory hlength _)
  obtain ⟨sent, hcall⟩ := call_of_serializes (serializes_readMemory haddress 1) hstub rfl
  exact ⟨_, hcall, hnext⟩

/-- What the reads of single bytes return -/
def values (data : List Byte) : List (Option FieldValue) := data.map fun b => some (.int b.toNat)

theorem mapM_byteOf (data : List Byte) : (values data).mapM AvatarstubTarget.byteOf = .ok data := by
  induction data with
  | nil => rfl
  | cons b data ih =>
    have hbyte : AvatarstubTarget.byteOf (some (.int b.toNat)) = .ok b := by
      have hlt : (b.toNat : Int) < 256 := by exact_mod_cast b.isLt
      rw [AvatarstubTarget.byteOf, if_pos ⟨Int.natCast_nonneg _, hlt⟩, BitVec.ofInt_natCast, BitVec.ofNat_toNat,
        BitVec.setWidth_eq]
    rw [values, List.map_cons, List.mapM_cons, hbyte]
    show ((values data).mapM AvatarstubTarget.byteOf).bind _ = _
    rw [ih]
    rfl

theorem load_succ (m : Memory) (address n : Nat) : m.load address (n + 1) = m address :: m.load (address + 1) n := by
  simp only [Memory.load, List.range_succ_eq_map, List.map_cons, List.map_map, Nat.add_zero]
  congr 2
  funext i
  simp only [Function.comp_apply, Nat.succ_eq_add_one]
  congr 1
  omega

theorem readLoop_run (hframes : device.Frames handle) (h : LoadsBytes handle memory)
    (haddress : address + length ≤ 2 ^ 32) (link : Link σ) : ∃ link',
    Debuggable.readUntypedMemory (AvatarstubTarget.readTypedMemory device.stub) address length link =
      some (.ok (values ((memory link.stub).load address length)), link') ∧
    memory link'.stub = memory link.stub := by
  induction length generalizing address link with
  | zero => exact ⟨link, rfl, rfl⟩
  | succ n ih =>
    obtain ⟨next, hbyte, hnext⟩ := readTypedMemory_run hframes h (by omega : address < 2 ^ 32) link
    have hcast : (address : Int) + 1 = ((address + 1 : Nat) : Int) := rfl
    obtain ⟨link', hrest, hlink'⟩ := ih (by omega : address + 1 + n ≤ 2 ^ 32) next
    refine ⟨link', ?_, hlink'.trans hnext⟩
    rw [Debuggable.readUntypedMemory, bind_eq hbyte, hcast, bind_eq hrest, hnext, load_succ]
    rfl

/-- Byte by byte the target reads its memory. -/
theorem debuggableReadUntypedMemory_run (hframes : device.Frames handle) (h : LoadsBytes handle memory)
    (haddress : address + length ≤ 2 ^ 32) (link : Link σ) : ∃ link', AvatarstubTarget.debuggableReadUntypedMemory device.stub address length link =
      some (.ok ((memory link.stub).load address length), link') := by
  obtain ⟨link', hloop, -⟩ := readLoop_run hframes h haddress link
  refine ⟨link', ?_⟩
  rw [AvatarstubTarget.debuggableReadUntypedMemory, bind_eq hloop, mapM_byteOf]
  rfl

/-! ### Both -/

theorem not_readsAlike_of_loadsBytes (hframes : device.Frames handle) (h : LoadsBytes handle memory)
    (haddress : address < 2 ^ 32) (hend : address + length ≤ 2 ^ 32) (link : Link σ) : ¬ReadsAlike device.stub address length link := by
  rintro ⟨data, bulk, bytewise, hbulk, hbytewise⟩
  obtain ⟨link', hloop⟩ := debuggableReadUntypedMemory_run hframes h hend link
  rw [hloop] at hbytewise
  cases hbytewise
  by_cases hlength : length ≤ 255
  · obtain ⟨crc, next, hcrc⟩ := readUntypedMemory_run hframes h haddress hlength link
    rw [hcrc] at hbulk
    simp at hbulk
  · rw [readUntypedMemory_assertionError (Nat.lt_of_not_le hlength)] at hbulk
    cases hbulk

/-- The bytes of the memory are what the byte-wise read returns, and the untyped read never returns them: it adds a
    byte to them or raises. -/
theorem never_readsAlike (hframes : device.Frames handle) (h : LoadsBytes handle memory) (haddress : address < 2 ^ 32)
    (hend : address + length ≤ 2 ^ 32) (link : Link σ) :
    (∃ link', AvatarstubTarget.debuggableReadUntypedMemory device.stub address length link =
      some (.ok ((memory link.stub).load address length), link')) ∧
    ¬ReadsAlike device.stub address length link :=
  ⟨debuggableReadUntypedMemory_run hframes h hend link, not_readsAlike_of_loadsBytes hframes h haddress hend link⟩

/-! ### A stub that only reads -/

def readOnly : List Byte → Memory → List Byte × Memory
  | [0x01#8, a, b, c, d, size], m => (0x90 :: size :: m.load (ofLE [a, b, c, d]) size.toNat, m)
  | [0x05#8, a, b, c, d, size], m => (0x94 :: m.load (ofLE [a, b, c, d]) size.toNat, m)
  | _, m => ([], m)

theorem loadsBytes_readOnly : LoadsBytes readOnly id where
  byte address m haddress := by
    have hhandle : readOnly (0x01 :: (toLE 4 address ++ [0x01])) m =
        (0x90 :: 0x01 :: m.load (ofLE (toLE 4 address)) 1, m) := rfl
    rw [ofLE_toLE_of_lt haddress] at hhandle
    exact ⟨m, hhandle, rfl⟩
  untyped address length m haddress hlength := by
    have hhandle : readOnly (0x05 :: (toLE 4 address ++ [BitVec.ofNat 8 length])) m =
        (0x94 :: m.load (ofLE (toLE 4 address)) (BitVec.ofNat 8 length).toNat, m) := rfl
    rw [ofLE_toLE_of_lt haddress, BitVec.toNat_ofNat, Nat.mod_eq_of_lt (by omega)] at hhandle
    exact ⟨m, hhandle, rfl⟩

theorem never_readsAlike_word :
    (∃ link', AvatarstubTarget.debuggableReadUntypedMemory (firmware readOnly).stub 0x1000 4 ⟨fun _ => 0x7F, []⟩ =
      some (.ok [0x7F, 0x7F, 0x7F, 0x7F], link')) ∧
    ¬ReadsAlike (firmware readOnly).stub 0x1000 4 ⟨fun _ => 0x7F, []⟩ :=
  never_readsAlike (firmware_frames _) loadsBytes_readOnly (by decide : 0x1000 < 2 ^ 32)
    (by decide : 0x1000 + 4 ≤ 2 ^ 32) _

theorem not_readsAlike : ¬∀ (memory : Memory) (address length : Nat), address < 2 ^ 32 → address + length ≤ 2 ^ 32 →
    ReadsAlike (firmware readOnly).stub address length ⟨memory, []⟩ := by
  intro h
  have halike : ReadsAlike (firmware readOnly).stub 0x1000 4 ⟨fun _ => 0x7F, []⟩ := h _ _ _ (by decide) (by decide)
  exact not_readsAlike_of_loadsBytes (firmware_frames _) loadsBytes_readOnly (by decide) (by decide) _ halike

end BulkRead

end Avatar
