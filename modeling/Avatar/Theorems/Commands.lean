import Avatar.Targets.Avatarstub

/-! The commands that go over the stub link as bytes, and the rules for calls on the target: a command that is
    serialized and answered as expected returns what the operation makes of the reply. -/

namespace Avatar
open Bytes

variable {σ : Type}

/-! ### Packing -/

theorem fromUint32_natCast {v : Nat} (h : v < 2 ^ 32) : fromUint32 (.int v) = .ok (toLE 4 v) := by
  rw [fromUint32, if_pos ⟨Int.natCast_nonneg _, by exact_mod_cast h⟩, Int.toNat_natCast]

theorem fromUint8_natCast (n : Nat) : fromUint8 (.int n) = .ok [BitVec.ofNat 8 n] := by
  rw [fromUint8, BitVec.ofInt_natCast]

theorem fromSize_one (value : FieldValue) : fromSize value (.int (1 : Nat)) = fromUint8 value := rfl

theorem fromSize_two (value : FieldValue) : fromSize value (.int (2 : Nat)) = fromUint16 value := rfl

theorem fromSize_four (value : FieldValue) : fromSize value (.int (4 : Nat)) = fromUint32 value := rfl

theorem fromSize_natCast {size value : Nat} (hsize : size = 1 ∨ size = 2 ∨ size = 4) (h : value < 256 ^ size) :
    fromSize (.int value) (.int size) = .ok (toLE size value) := by
  rcases hsize with rfl | rfl | rfl
  · rw [fromSize_one, fromUint8_natCast]
    rfl
  · have hlt : (value : Int) < 2 ^ 16 := by omega
    rw [fromSize_two, fromUint16, if_pos ⟨Int.natCast_nonneg _, hlt⟩, Int.toNat_natCast]
  · have hlt : value < 2 ^ 32 := by omega
    rw [fromSize_four, fromUint32_natCast hlt]

section Pack
variable {msg : AvatarMessage} {address size value register : FieldValue} {a n v : List Byte}

theorem readMemory_pack (haddress : msg.attr "address" = .ok address) (ha : fromUint32 address = .ok a)
    (hsize : msg.attr "size" = .ok size) (hn : fromUint8 size = .ok n) :
    MessageDeclaration.readMemory.pack msg = .ok (.bytes (a ++ n)) := by
  simp only [MessageDeclaration.readMemory, MessageDeclaration.packAddressSize, haddress, ha, hsize, hn, bind,
    Except.bind]

theorem writeMemory_pack (haddress : msg.attr "address" = .ok address) (ha : fromUint32 address = .ok a)
    (hsize : msg.attr "size" = .ok size) (hn : fromUint8 size = .ok n) (hvalue : msg.attr "value" = .ok value)
    (hv : fromSize value size = .ok v) : MessageDeclaration.writeMemory.pack msg = .ok (.bytes (a ++ n ++ v)) := by
  simp only [MessageDeclaration.writeMemory, haddress, ha, hsize, hn, hvalue, hv, bind, Except.bind]

theorem getRegister_pack (hregister : msg.attr "register" = .ok register) (hn : fromUint8 register = .ok n) :
    MessageDeclaration.getRegister.pack msg = .ok (.bytes n) := by
  simp only [MessageDeclaration.getRegister, MessageDeclaration.packUint8, hregister, hn, bind, Except.bind]

theorem setRegister_pack (hregister : msg.attr "register" = .ok register) (hn : fromUint8 register = .ok n)
    (hvalue : msg.attr "value" = .ok value) (hv : fromUint32 value = .ok v) :
    MessageDeclaration.setRegister.pack msg = .ok (.bytes (n ++ v)) := by
  simp only [MessageDeclaration.setRegister, hregister, hn, hvalue, hv, bind, Except.bind]

end Pack

/-! ### Commands -/

/-- The command of an operation can be built, and its bytes are `body`. -/
def Operation.Serializes (op : Operation) (body : List Byte) : Prop :=
  ∃ message, op.message = .ok message ∧ message.serialize = .ok body

theorem serializes_readMemory {address : Nat} (h : address < 2 ^ 32) (size : Nat) :
    (Operation.readMemory address size).Serializes (0x01 :: (toLE 4 address ++ [BitVec.ofNat 8 size])) :=
  ⟨_, rfl, serialize_eq (d := .readMemory) (mem_of_lookup rfl)
    (readMemory_pack rfl (fromUint32_natCast h) rfl (fromUint8_natCast size))⟩

theorem serializes_writeMemory {address size value : Nat} (h : address < 2 ^ 32)
    (hsize : size = 1 ∨ size = 2 ∨ size = 4) (hvalue : value < 256 ^ size) :
    (Operation.writeMemory address size value).Serializes
      (0x02 :: (toLE 4 address ++ [BitVec.ofNat 8 size] ++ toLE size value)) :=
  ⟨_, rfl, serialize_eq (d := .writeMemory) (mem_of_lookup rfl)
    (writeMemory_pack rfl (fromUint32_natCast h) rfl (fromUint8_natCast size) rfl (fromSize_natCast hsize hvalue))⟩

theorem serializes_getRegister (register : Nat) :
    (Operation.getRegister register).Serializes [0x03, BitVec.ofNat 8 register] :=
  ⟨_, rfl, serialize_eq (d := .getRegister) (mem_of_lookup rfl) (getRegister_pack rfl (fromUint8_natCast register))⟩

theorem serializes_setRegister (register : Nat) {value : Nat} (h : value < 2 ^ 32) :
    (Operation.setRegister register value).Serializes (0x04 :: BitVec.ofNat 8 register :: toLE 4 value) :=
  ⟨_, rfl, serialize_eq (d := .setRegister) (mem_of_lookup rfl)
    (setRegister_pack rfl (fromUint8_natCast register) rfl (fromUint32_natCast h))⟩

theorem serializes_cont : Operation.cont.Serializes [0x40] :=
  ⟨_, rfl, serialize_eq (d := .resumeVm) (mem_of_lookup rfl) rfl⟩

/-! ### Calls -/

section Calls
variable {stub : Stub σ} {link : Link σ} {op : Operation} {reply : AvatarMessage} {body : List Byte} {next : σ}

theorem call_eq {message : AvatarMessage} (hm : op.message = .ok message) (hs : message.serialize = .ok body)
    (hstub : stub body link.stub = (reply, next)) (hr : reply.name ∈ op.expectedReplies) :
    AvatarProtocol.call stub op link = some (op.result reply, ⟨next, link.sent ++ [message]⟩) := by
  simp only [AvatarProtocol.call, hm, hs, hstub, if_pos hr]

theorem call_of_serializes (h : op.Serializes body) (hstub : stub body link.stub = (reply, next))
    (hr : reply.name = op.reply) :
    ∃ sent, AvatarProtocol.call stub op link = some (op.result reply, ⟨next, sent⟩) := by
  obtain ⟨message, hm, hs⟩ := h
  exact ⟨_, call_eq hm hs hstub (by rw [hr]; exact .head _)⟩

/-- A reply that says all is well raises no error. -/
theorem result_of_ok (h : reply.name = "AVATAR_RPC_DTH_REPLY_OK") : Operation.raiseRemoteError reply = .ok () := by
  rw [Operation.raiseRemoteError, h, if_neg (by decide)]

theorem fieldOf_eq {field : String} {value : FieldValue} (hname : reply.name ≠ "AVATAR_RPC_DTH_REPLY_ERROR")
    (hvalue : reply.fields.lookup field = some value) : Operation.fieldOf field reply = .ok (some value) := by
  simp only [Operation.fieldOf, Operation.raiseRemoteError, if_neg hname, AvatarMessage.attr, hvalue, bind,
    Except.bind]

end Calls

namespace TargetM
variable {α β : Type} {link next : Link σ}

theorem bind_eq {x : TargetM σ α} {f : α → TargetM σ β} {a : α} (h : x link = some (.ok a, next)) :
    (x >>= f) link = f a next := by
  show (x link).bind _ = _
  rw [h]
  rfl

theorem pure_eq (a : α) (link : Link σ) : (pure a : TargetM σ α) link = some (.ok a, link) := rfl

end TargetM

end Avatar
