import Avatar.AvatarStub.Wire
import Avatar.Lib.WordMemory
import Avatar.Theorems.Commands
import Avatar.Theorems.Framing
import Avatar.Theorems.MessageCrc

/-! Typed accesses through the stub refine a plain memory and register file. Every access goes over the line twice,
    framed, escaped and with a CRC, and the replies to reads are padded to a word before they are unpacked. -/

namespace Avatar
open Bytes AvatarLowlevelProtocol MessageCrc TargetM

namespace TypedAccess
variable {σ : Type}

/-! ### The machine -/

structure Machine where
  memory : WordMemory 32
  registers : Fin 17 → BitVec 32

inductive AccessSize where
  | byte
  | half
  | word
deriving DecidableEq, Repr

def AccessSize.bytes : AccessSize → Nat
  | byte => 1
  | half => 2
  | word => 4

/-- A register by a name or number that is valid. -/
structure Register where
  name : RegisterName
  index : Fin 17
  number_eq : name.number = .ok (index : Int)

inductive Access where
  | readTypedMemory (address : BitVec 32) (size : AccessSize)
  | writeTypedMemory (address : BitVec 32) (size : AccessSize) (value : BitVec (8 * size.bytes))
  | getRegister (register : Register)
  | setRegister (register : Register) (value : BitVec 32)

/-- What an access does to the machine, and what it returns. -/
def Access.apply : Access → StateM Machine (Option FieldValue)
  | readTypedMemory address size => fun m => (some (.int (ofLE (m.memory.load address size.bytes))), m)
  | writeTypedMemory address size value => fun m =>
    (none, { m with memory := m.memory.store address (toLE size.bytes value.toNat) })
  | getRegister register => fun m => (some (.int (m.registers register.index).toNat), m)
  | setRegister register value => fun m =>
    (none, { m with registers := Function.update m.registers register.index value })

/-- The call on the target. -/
def Access.call (stub : Stub σ) : Access → TargetM σ (Option FieldValue)
  | readTypedMemory address size => AvatarstubTarget.readTypedMemory stub address.toNat size.bytes
  | writeTypedMemory address size value => do
    AvatarstubTarget.writeTypedMemory stub address.toNat size.bytes value.toNat
    pure none
  | getRegister register => AvatarstubTarget.getRegister stub register.name
  | setRegister register value => do
    AvatarstubTarget.setRegister stub register.name value.toNat
    pure none

/-! ### The stub -/

/-- The commands that the stub handles, on the machine that its state stands for. -/
structure Implements (handle : List Byte → σ → List Byte × σ) (machine : σ → Machine) : Prop where
  readMemory : ∀ (address : BitVec 32) (size : AccessSize) (s : σ), ∃ next,
    handle (0x01 :: (toLE 4 address.toNat ++ [BitVec.ofNat 8 size.bytes])) s =
      (0x90 :: BitVec.ofNat 8 size.bytes :: (machine s).memory.load address size.bytes, next) ∧
    machine next = machine s
  writeMemory : ∀ (address : BitVec 32) (size : AccessSize) (value : Nat) (s : σ), value < 256 ^ size.bytes →
    ∃ next, handle (0x02 :: (toLE 4 address.toNat ++ [BitVec.ofNat 8 size.bytes] ++ toLE size.bytes value)) s =
      ([0xB1], next) ∧
    machine next = { machine s with memory := (machine s).memory.store address (toLE size.bytes value) }
  getRegister : ∀ (register : Fin 17) (s : σ), ∃ next,
    handle [0x03, BitVec.ofNat 8 register] s = (0x91 :: toLE 4 ((machine s).registers register).toNat, next) ∧
    machine next = machine s
  setRegister : ∀ (register : Fin 17) (value : BitVec 32) (s : σ), ∃ next,
    handle (0x04 :: BitVec.ofNat 8 register :: toLE 4 value.toNat) s = ([0xB1], next) ∧
    machine next = { machine s with registers := Function.update (machine s).registers register value }

/-! ### The line -/

section Line
variable {device : Device σ} {handle : List Byte → σ → List Byte × σ} {body reply : List Byte} {s next : σ}
  {message : AvatarMessage}

theorem run_frame (m : List Byte) : (run .init (rawMessage m)).2 = [m ++ [crc8 m]] := by
  have h := run_frames [m]
  rwa [List.flatMap_singleton] at h

/-- The reply arrives as it is parsed with its CRC. -/
theorem stub_of_frames (hframes : device.Frames handle) (hhandle : handle body s = (reply, next))
    (hparse : parseAvatarMessage (reply ++ [crc8 reply]) = .ok message) :
    device.stub body s = (message, next) := by
  have hdevice : device (rawMessage body) s = (rawMessage reply, next) := by
    rw [hframes, hhandle]
  have hmessage : received (rawMessage reply) = [message] := by
    have hparsed : parseMessage (reply ++ [crc8 reply]) = some message := by
      have hne : (reply ++ [crc8 reply]).isEmpty = false := by simp
      simp only [parseMessage, hne, Bool.false_eq_true, if_false, crcMatches_append, Bool.not_true, hparse]
    rw [received, run_frame, List.filterMap_cons, hparsed]
    rfl
  simp only [Device.stub, hdevice, hmessage]
  rfl

end Line

/-! ### Replies -/

theorem AccessSize.cases (size : AccessSize) : size.bytes = 1 ∨ size.bytes = 2 ∨ size.bytes = 4 := by
  cases size with
  | byte => exact .inl rfl
  | half => exact .inr (.inl rfl)
  | word => exact .inr (.inr rfl)

theorem parse_replyOk (crc : Byte) :
    parseAvatarMessage ([0xB1] ++ [crc]) = .ok ⟨0xB1, "AVATAR_RPC_DTH_REPLY_OK", []⟩ := rfl

/-- A read that is shorter than a word has been padded with zeros. -/
theorem parse_replyReadMemory {size : AccessSize} {data : List Byte} (h : data.length = size.bytes) (crc : Byte) :
    parseAvatarMessage (0x90 :: BitVec.ofNat 8 size.bytes :: data ++ [crc]) =
      .ok ⟨0x90, "AVATAR_RPC_DTH_REPLY_READ_MEMORY", [("value", .int (ofLE data))]⟩ := by
  have hle : size.bytes ≤ 4 := by
    rcases size.cases with h | h | h <;> rw [h] <;> decide
  have hmin : min (BitVec.ofNat 8 size.bytes).toNat 4 = size.bytes := by
    rw [BitVec.toNat_ofNat, Nat.mod_eq_of_lt (by omega), Nat.min_eq_left hle]
  have htake : (data ++ [crc]).take size.bytes = data := by
    rw [← h, List.take_left]
  have hlen : size.bytes ≤ (data ++ [crc]).length := by
    rw [List.length_append, h]
    exact Nat.le_add_right _ _
  refine parseAvatarMessage_ok (d := .replyReadMemory) rfl ?_
  show MessageDeclaration.replyReadMemory.unpack (BitVec.ofNat 8 size.bytes :: (data ++ [crc])) = _
  rw [replyReadMemory_unpack, hmin, if_pos hlen, htake]

theorem parse_replyGetRegister (value : BitVec 32) (crc : Byte) :
    parseAvatarMessage (0x91 :: toLE 4 value.toNat ++ [crc]) =
      .ok ⟨0x91, "AVATAR_RPC_DTH_REPLY_GET_REGISTER", [("value", .int value.toNat)]⟩ := by
  have hword : toUint32 (toLE 4 value.toNat) = .ok (.int value.toNat) := by
    have hslice : slice (toLE 4 value.toNat) 0 4 = toLE 4 value.toNat := rfl
    rw [toUint32, hslice, if_pos (length_toLE 4 _), ofLE_toLE_of_lt value.isLt]
  refine parseAvatarMessage_ok (d := .replyGetRegister) rfl ?_
  show dict [("value", toUint32 (toLE 4 value.toNat))] = _
  rw [hword]
  rfl

/-! ### One access -/

section Access
variable {device : Device σ} {handle : List Byte → σ → List Byte × σ} {machine : σ → Machine}

theorem call_run (hframes : device.Frames handle) (h : Implements handle machine) (access : Access) (link : Link σ) :
    ∃ link', access.call device.stub link = some (.ok (access.apply (machine link.stub)).1, link') ∧
    machine link'.stub = (access.apply (machine link.stub)).2 := by
  cases access with
  | readTypedMemory address size =>
    obtain ⟨next, hhandle, hnext⟩ := h.readMemory address size link.stub
    have hstub := stub_of_frames hframes hhandle (parse_replyReadMemory (WordMemory.length_load _ _ _) _)
    obtain ⟨sent, hcall⟩ := call_of_serializes (serializes_readMemory address.isLt size.bytes) hstub rfl
    exact ⟨⟨next, sent⟩, hcall, hnext⟩
  | writeTypedMemory address size value =>
    have hvalue : value.toNat < 256 ^ size.bytes := by
      have hlt := value.isLt
      rwa [Nat.pow_mul] at hlt
    obtain ⟨next, hhandle, hnext⟩ := h.writeMemory address size value.toNat link.stub hvalue
    have hstub := stub_of_frames hframes hhandle (parse_replyOk _)
    obtain ⟨sent, hcall⟩ := call_of_serializes (serializes_writeMemory address.isLt size.cases hvalue) hstub rfl
    refine ⟨⟨next, sent⟩, ?_, hnext⟩
    rw [Access.call, AvatarstubTarget.writeTypedMemory, bind_eq (bind_eq hcall)]
    rfl
  | getRegister register =>
    obtain ⟨next, hhandle, hnext⟩ := h.getRegister register.index link.stub
    have hstub := stub_of_frames hframes hhandle (parse_replyGetRegister _ _)
    obtain ⟨sent, hcall⟩ := call_of_serializes (serializes_getRegister register.index) hstub rfl
    refine ⟨⟨next, sent⟩, ?_, hnext⟩
    rw [Access.call, AvatarstubTarget.getRegister, register.number_eq]
    exact hcall
  | setRegister register value =>
    obtain ⟨next, hhandle, hnext⟩ := h.setRegister register.index value link.stub
    have hstub := stub_of_frames hframes hhandle (parse_replyOk _)
    obtain ⟨sent, hcall⟩ := call_of_serializes (serializes_setRegister register.index value.isLt) hstub rfl
    refine ⟨⟨next, sent⟩, ?_, hnext⟩
    rw [Access.call, AvatarstubTarget.setRegister, register.number_eq]
    exact (bind_eq (bind_eq hcall)).trans rfl

/-- Every sequence of accesses returns what the machine returns, and leaves the machine that it leaves. -/
theorem typed_access_refines (hframes : device.Frames handle) (h : Implements handle machine) (accesses : List Access)
    (link : Link σ) : ∃ link', (accesses.mapM (Access.call device.stub)) link =
      some (.ok (accesses.mapM Access.apply (machine link.stub)).1, link') ∧
    machine link'.stub = (accesses.mapM Access.apply (machine link.stub)).2 := by
  induction accesses generalizing link with
  | nil => exact ⟨link, rfl, rfl⟩
  | cons access accesses ih =>
    obtain ⟨next, hcall, hnext⟩ := call_run hframes h access link
    obtain ⟨link', hrest, hlink'⟩ := ih next
    rw [hnext] at hrest hlink'
    refine ⟨link', ?_, ?_⟩
    · rw [List.mapM_cons, bind_eq hcall, bind_eq hrest, List.mapM_cons]
      rfl
    · rw [hlink', List.mapM_cons]
      rfl

end Access

/-! ### A stub that does no more than this -/

/-- A stub that un-escapes and checks a frame, and frames its reply -/
def firmware (handle : List Byte → σ → List Byte × σ) : Device σ := fun bytes s =>
  match (run .init bytes).2 with
  | [data] =>
    if crcMatches data then
      let (reply, next) := handle data.dropLast s
      (rawMessage reply, next)
    else ([], s)
  | _ => ([], s)

theorem firmware_frames (handle : List Byte → σ → List Byte × σ) : (firmware handle).Frames handle := by
  intro body s
  simp only [firmware, run_frame, crcMatches_append, if_true, List.dropLast_concat]

def Machine.handle : List Byte → Machine → List Byte × Machine
  | [0x01#8, a, b, c, d, size], m => (0x90 :: size :: m.memory.load (.ofNat 32 (ofLE [a, b, c, d])) size.toNat, m)
  | 0x02#8 :: a :: b :: c :: d :: _ :: value, m =>
    ([0xB1], { m with memory := m.memory.store (.ofNat 32 (ofLE [a, b, c, d])) value })
  | [0x03#8, register], m =>
    if h : register.toNat < 17 then (0x91 :: toLE 4 (m.registers ⟨register.toNat, h⟩).toNat, m) else ([], m)
  | [0x04#8, register, a, b, c, d], m =>
    if h : register.toNat < 17 then
      ([0xB1], { m with registers := Function.update m.registers ⟨register.toNat, h⟩ (.ofNat 32 (ofLE [a, b, c, d])) })
    else ([], m)
  | _, m => ([], m)

theorem ofNat_ofLE_toLE (value : BitVec 32) : BitVec.ofNat 32 (ofLE (toLE 4 value.toNat)) = value := by
  rw [ofLE_toLE_of_lt value.isLt, BitVec.ofNat_toNat, BitVec.setWidth_eq]

theorem toNat_register (register : Fin 17) : (BitVec.ofNat 8 register).toNat = register := by
  rw [BitVec.toNat_ofNat, Nat.mod_eq_of_lt (by omega)]

theorem implements_handle : Implements Machine.handle id where
  readMemory address size m := by
    have hhandle : Machine.handle (0x01 :: (toLE 4 address.toNat ++ [BitVec.ofNat 8 size.bytes])) m =
        (0x90 :: BitVec.ofNat 8 size.bytes :: m.memory.load (.ofNat 32 (ofLE (toLE 4 address.toNat)))
          (BitVec.ofNat 8 size.bytes).toNat, m) := rfl
    have hsize : (BitVec.ofNat 8 size.bytes).toNat = size.bytes := by
      rcases size.cases with h | h | h <;> rw [h] <;> rfl
    rw [ofNat_ofLE_toLE, hsize] at hhandle
    exact ⟨m, hhandle, rfl⟩
  writeMemory address size value m _ := by
    have hhandle : Machine.handle
        (0x02 :: (toLE 4 address.toNat ++ [BitVec.ofNat 8 size.bytes] ++ toLE size.bytes value)) m =
          ([0xB1], { m with
            memory := m.memory.store (.ofNat 32 (ofLE (toLE 4 address.toNat))) (toLE size.bytes value) }) := rfl
    rw [ofNat_ofLE_toLE] at hhandle
    exact ⟨_, hhandle, rfl⟩
  getRegister register m := by
    refine ⟨m, ?_, rfl⟩
    have h : (BitVec.ofNat 8 register).toNat < 17 := by
      rw [toNat_register]
      exact register.isLt
    show (if h : (BitVec.ofNat 8 register).toNat < 17 then _ else _) = _
    rw [dif_pos h]
    simp only [toNat_register, id]
  setRegister register value m := by
    have h : (BitVec.ofNat 8 register).toNat < 17 := by
      rw [toNat_register]
      exact register.isLt
    have hhandle : Machine.handle (0x04 :: BitVec.ofNat 8 register :: toLE 4 value.toNat) m = ([0xB1], { m with
        registers := Function.update m.registers register (.ofNat 32 (ofLE (toLE 4 value.toNat))) }) := by
      show (if h : (BitVec.ofNat 8 register).toNat < 17 then _ else _) = _
      rw [dif_pos h]
      simp only [toNat_register]
      rfl
    rw [ofNat_ofLE_toLE] at hhandle
    exact ⟨_, hhandle, rfl⟩

/-- A word is written over a byte before it, and read back one byte on. -/
theorem typed_access_refines_overlap : ∃ link', ([
      .writeTypedMemory 0x54 .byte 0xAA, .writeTypedMemory 0x55 .word 0x55AA55AA, .readTypedMemory 0x54 .word,
      .setRegister ⟨.str "SP", 13, rfl⟩ 0x550000AA, .getRegister ⟨.int 13, 13, rfl⟩].mapM
        (Access.call (firmware Machine.handle).stub)) ⟨⟨fun _ => 0, fun _ => 0⟩, []⟩ =
      some (.ok [none, none, some (.int 0xAA55AAAA), none, some (.int 0x550000AA)], link') := by
  obtain ⟨link', hrun, -⟩ := typed_access_refines (firmware_frames _) implements_handle [
    .writeTypedMemory 0x54 .byte 0xAA, .writeTypedMemory 0x55 .word 0x55AA55AA, .readTypedMemory 0x54 .word,
    .setRegister ⟨.str "SP", 13, rfl⟩ 0x550000AA, .getRegister ⟨.int 13, 13, rfl⟩] ⟨⟨fun _ => 0, fun _ => 0⟩, []⟩
  exact ⟨link', hrun⟩

end TypedAccess

end Avatar
