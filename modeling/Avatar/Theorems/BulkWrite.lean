import Avatar.Theorems.Commands

/-! Writing a byte string through the stub link. The chunked `write_untyped_memory` sends the slice that
    starts at index `address` of the data, to `address`, once for every 255 bytes: all its messages are
    equal, so it leaves the memory that one of them leaves. -/

namespace Avatar
open Bytes TargetM

namespace BulkWrite
variable {σ : Type} {stub : Stub σ} {memory : σ → Memory} {address : Nat} {data : List Byte} {link : Link σ}

/-! ### The stub -/

/-- The stub stores the bytes of a write command at its address and answers that all is well. -/
structure StoresBytes (stub : Stub σ) (memory : σ → Memory) : Prop where
  untyped : ∀ (address : Nat) (data : List Byte) (s : σ), address < 2 ^ 32 → data.length ≤ 255 →
    ∃ reply next, stub (0x06 :: (toLE 4 address ++ [BitVec.ofNat 8 data.length] ++ data)) s = (reply, next) ∧
      reply.name = "AVATAR_RPC_DTH_REPLY_OK" ∧ memory next = (memory s).store address data
  byte : ∀ (address : Nat) (b : Byte) (s : σ), address < 2 ^ 32 →
    ∃ reply next, stub (0x02 :: (toLE 4 address ++ [0x01] ++ [b])) s = (reply, next) ∧
      reply.name = "AVATAR_RPC_DTH_REPLY_OK" ∧ memory next = (memory s).store address [b]

def memoryStub : Stub Memory := fun body m =>
  match body with
  | 0x02 :: payload | 0x06 :: payload =>
    (⟨0xB1, "AVATAR_RPC_DTH_REPLY_OK", []⟩, m.store (ofLE (payload.take 4)) (payload.drop 5))
  | _ => (⟨0xB2, "AVATAR_RPC_DTH_REPLY_ERROR", [("error", .int 0)]⟩, m)

theorem memoryStub_payload {address : Nat} (h : address < 2 ^ 32) (b : Byte) (data : List Byte) :
    ofLE ((toLE 4 address ++ [b] ++ data).take 4) = address ∧ (toLE 4 address ++ [b] ++ data).drop 5 = data := by
  have htake : (toLE 4 address ++ [b] ++ data).take 4 = toLE 4 address := rfl
  rw [htake, ofLE_toLE_of_lt h]
  exact ⟨rfl, rfl⟩

theorem memoryStub_storesBytes : StoresBytes memoryStub id where
  untyped address data s h _ := by
    obtain ⟨ha, hd⟩ := memoryStub_payload h (BitVec.ofNat 8 data.length) data
    exact ⟨_, _, rfl, rfl, congrArg₂ (Memory.store s) ha hd⟩
  byte address b s h := by
    obtain ⟨ha, hd⟩ := memoryStub_payload h 0x01 [b]
    exact ⟨_, _, rfl, rfl, congrArg₂ (Memory.store s) ha hd⟩

/-! ### One call -/

theorem writeUntypedMemory_pack {msg : AvatarMessage} {address : FieldValue} {a chunk : List Byte}
    (haddress : msg.attr "address" = .ok address) (ha : fromUint32 address = .ok a)
    (hdata : msg.attr "data" = .ok (.bytes chunk)) : MessageDeclaration.writeUntypedMemory.pack msg =
      .ok (.bytes (a ++ [BitVec.ofNat 8 chunk.length] ++ chunk)) := by
  have hlen : (FieldValue.bytes chunk).len = .ok chunk.length := rfl
  have hbytes : (FieldValue.bytes chunk).toBytes = .ok chunk := rfl
  simp only [MessageDeclaration.writeUntypedMemory, haddress, ha, hdata, hlen, hbytes, fromUint8_natCast, bind,
    Except.bind]

def chunkMessage (address : Nat) (chunk : List Byte) : AvatarMessage :=
  ⟨0x06, "AVATAR_RPC_HTD_WRITE_UNTYPED_MEMORY", [("address", .int address), ("data", .bytes chunk)]⟩

theorem chunkMessage_serialize (ha : address < 2 ^ 32) (chunk : List Byte) : (chunkMessage address chunk).serialize =
    .ok (0x06 :: (toLE 4 address ++ [BitVec.ofNat 8 chunk.length] ++ chunk)) :=
  serialize_eq (d := .writeUntypedMemory) (mem_of_lookup rfl)
    (writeUntypedMemory_pack rfl (fromUint32_natCast ha) rfl)

def byteMessage (address : Nat) (b : Byte) : AvatarMessage :=
  ⟨0x02, "AVATAR_RPC_HTD_WRITE_MEMORY", [("address", .int address), ("size", .int 1), ("value", .int b.toNat)]⟩

theorem byteMessage_serialize (ha : address < 2 ^ 32) (b : Byte) : (byteMessage address b).serialize =
    .ok (0x02 :: (toLE 4 address ++ [0x01] ++ [b])) := by
  have hsize : 1 = 1 ∨ 1 = 2 ∨ 1 = 4 := .inl rfl
  obtain ⟨message, hmessage, hserialize⟩ := serializes_writeMemory ha hsize b.isLt
  cases hmessage
  have hbyte : toLE 1 b.toNat = [b] := toLE_ofLE [b]
  rw [hbyte] at hserialize
  exact hserialize

theorem call_writeMemoryUntyped (hstub : StoresBytes stub memory) (ha : address < 2 ^ 32) {chunk : List Byte}
    (hc : chunk.length ≤ 255) (link : Link σ) : ∃ next,
      AvatarProtocol.call stub (.writeMemoryUntyped address chunk) link =
        some (.ok none, ⟨next, link.sent ++ [chunkMessage address chunk]⟩) ∧
      memory next = (memory link.stub).store address chunk := by
  obtain ⟨reply, next, hreply, hname, hnext⟩ := hstub.untyped address chunk link.stub ha hc
  have hmessage : (Operation.writeMemoryUntyped address chunk).message = .ok (chunkMessage address chunk) := if_pos hc
  refine ⟨next, ?_, hnext⟩
  rw [call_eq hmessage (chunkMessage_serialize ha chunk) hreply (by rw [hname]; exact .head _)]
  simp only [Operation.result, result_of_ok hname, bind, Except.bind]

theorem call_writeMemory (hstub : StoresBytes stub memory) (ha : address < 2 ^ 32) (b : Byte) (link : Link σ) :
    ∃ next, AvatarProtocol.call stub (.writeMemory address 1 b.toNat) link =
        some (.ok none, ⟨next, link.sent ++ [byteMessage address b]⟩) ∧
      memory next = (memory link.stub).store address [b] := by
  obtain ⟨reply, next, hreply, hname, hnext⟩ := hstub.byte address b link.stub ha
  have hmessage : (Operation.writeMemory address 1 b.toNat).message = .ok (byteMessage address b) := rfl
  refine ⟨next, ?_, hnext⟩
  rw [call_eq hmessage (byteMessage_serialize ha b) hreply (by rw [hname]; exact .head _)]
  simp only [Operation.result, result_of_ok hname, bind, Except.bind]

/-! ### The two loops -/

theorem bytewise_run (hstub : StoresBytes stub memory) (ha : address + data.length ≤ 2 ^ 32) (link : Link σ) :
    ∃ next, Debuggable.writeUntypedMemory (AvatarstubTarget.writeTypedMemory stub) address data link =
        some (.ok (), next) ∧
      memory next.stub = (memory link.stub).store address data := by
  induction data generalizing address link with
  | nil => exact ⟨link, rfl, (Memory.store_nil _ _).symm⟩
  | cons b rest ih =>
    rw [List.length_cons] at ha
    obtain ⟨s, hcall, hs⟩ := call_writeMemory hstub (by omega : address < 2 ^ 32) b link
    have hwrite : AvatarstubTarget.writeTypedMemory stub address 1 b.toNat link =
        some (.ok (), ⟨s, link.sent ++ [byteMessage address b]⟩) := (bind_eq hcall).trans (pure_eq _ _)
    have hcast : (address : Int) + 1 = ((address + 1 : Nat) : Int) := rfl
    obtain ⟨next, hrest, hnext⟩ := ih (by omega : address + 1 + rest.length ≤ 2 ^ 32) _
    refine ⟨next, ?_, ?_⟩
    · rw [Debuggable.writeUntypedMemory, bind_eq hwrite, hcast]
      exact hrest
    · rw [hnext, Memory.store_cons, ← hs]

/-- The chunked loop sends the same chunk over and over. -/
theorem loop_run (hstub : StoresBytes stub memory) (ha : address < 2 ^ 32) (data : List Byte) (chunk_address : Nat)
    (remaining_size : Int) (link : Link σ) : ∃ next k,
      AvatarstubTarget.writeUntypedMemory.loop stub address data chunk_address remaining_size link =
        some (.ok (), next) ∧
      next.sent = link.sent ++ List.replicate k (chunkMessage address (slice data address (address + 255))) ∧
      memory next.stub = if 0 < remaining_size then
        (memory link.stub).store address (slice data address (address + 255)) else memory link.stub := by
  induction hn : remaining_size.toNat using Nat.strong_induction_on generalizing chunk_address remaining_size link with
  | _ n ih =>
    rw [AvatarstubTarget.writeUntypedMemory.loop]
    by_cases hr : 0 < remaining_size
    · have hlen : (slice data address (address + 255)).length ≤ 255 := by
        rw [length_slice]
        omega
      obtain ⟨s, hcall, hs⟩ := call_writeMemoryUntyped hstub ha hlen link
      obtain ⟨next, k, hrest, hsent, hnext⟩ := ih (remaining_size - 255).toNat (by omega) (chunk_address + 255)
        (remaining_size - 255) ⟨s, link.sent ++ [chunkMessage address (slice data address (address + 255))]⟩ rfl
      refine ⟨next, k + 1, ?_, ?_, ?_⟩
      · rw [if_pos hr, bind_eq hcall]
        exact hrest
      · rw [hsent, List.replicate_succ, List.append_assoc, List.singleton_append]
      -- What is left to do stores the same bytes again, or nothing.
      · rw [hnext, if_pos hr, hs]
        split
        · exact Memory.store_store _ _ _
        · rfl
    · exact ⟨link, 0, by rw [if_neg hr, pure_eq], by simp, by rw [if_neg hr]⟩

theorem chunked_run (hstub : StoresBytes stub memory) (ha : address + data.length ≤ 2 ^ 32) (link : Link σ) :
    ∃ next k, AvatarstubTarget.writeUntypedMemory stub address data link = some (.ok (), next) ∧
      next.sent = link.sent ++ List.replicate k (chunkMessage address (slice data address (address + 255))) ∧
      memory next.stub = (memory link.stub).store address (slice data address (address + 255)) := by
  cases data with
  | nil => exact ⟨link, 0, by rw [AvatarstubTarget.writeUntypedMemory, AvatarstubTarget.writeUntypedMemory.loop]; rfl,
      by simp, by simp⟩
  | cons b rest =>
    rw [List.length_cons] at ha
    obtain ⟨next, k, hrun, hsent, hnext⟩ := loop_run hstub (by omega : address < 2 ^ 32) (b :: rest) address
      (b :: rest).length link
    rw [if_pos (by simp)] at hnext
    exact ⟨next, k, hrun, hsent, hnext⟩

/-! ### Comparison -/

/-- The chunked write of `data` to `address` leaves the memory that the byte-wise one leaves, with the
    data in its place and nothing else changed, and no message carries more than 255 bytes. -/
def WritesBulk (stub : Stub σ) (memory : σ → Memory) (address : Nat) (data : List Byte) (link : Link σ) : Prop :=
  ∃ chunked bytewise messages,
    AvatarstubTarget.writeUntypedMemory stub address data link = some (.ok (), chunked) ∧
    Debuggable.writeUntypedMemory (AvatarstubTarget.writeTypedMemory stub) address data link =
      some (.ok (), bytewise) ∧
    memory chunked.stub = memory bytewise.stub ∧
    (∀ i, (hi : i < data.length) → memory chunked.stub (address + i) = data[i]) ∧
    (∀ x, x < address ∨ address + data.length ≤ x → memory chunked.stub x = memory link.stub x) ∧
    chunked.sent = link.sent ++ messages ∧
    ∀ message ∈ messages, ∀ carried, message.fields.lookup "data" = some (.bytes carried) → carried.length ≤ 255

/-- Each byte of the data is the byte that the one slice puts in its place, or that is already there. -/
def InPlace (m : Memory) (address : Nat) (data : List Byte) : Prop :=
  ∀ i, (hi : i < data.length) → ((slice data address (address + 255))[i]?).getD (m (address + i)) = data[i]

theorem inPlace_iff {m : Memory} : InPlace m address data ↔
    m.store address (slice data address (address + 255)) = m.store address data :=
  (Memory.store_eq_store_iff _ _ _ _ (by rw [length_slice]; omega)).symm

theorem writesBulk_iff_store (hstub : StoresBytes stub memory) (ha : address + data.length ≤ 2 ^ 32) :
    WritesBulk stub memory address data link ↔
      (memory link.stub).store address (slice data address (address + 255)) =
        (memory link.stub).store address data := by
  obtain ⟨chunked, k, hrun, hsent, hchunked⟩ := chunked_run hstub ha link
  obtain ⟨bytewise, hrun', hbytewise⟩ := bytewise_run hstub ha link
  constructor
  · rintro ⟨_, _, _, h, h', heq, -⟩
    rw [hrun] at h
    rw [hrun'] at h'
    cases h
    cases h'
    rw [← hchunked, heq, hbytewise]
  · intro h
    rw [← hchunked] at h
    refine ⟨chunked, bytewise, _, hrun, hrun', h.trans hbytewise.symm, fun i hi => ?_, fun x hx => ?_, hsent, ?_⟩
    · rw [h, Memory.store_at_of_lt _ _ _ hi]
    · rw [h]
      rcases hx with hx | hx
      · exact Memory.store_of_lt _ _ _ hx
      · obtain ⟨i, rfl⟩ : ∃ i, x = address + i := ⟨x - address, by omega⟩
        exact Memory.store_at_of_le _ _ _ (by omega)
    · intro message hmem carried hcarried
      rw [List.eq_of_mem_replicate hmem] at hcarried
      cases hcarried
      rw [length_slice]
      omega

/-- The chunked write does what it should exactly when the data is in place. -/
theorem writesBulk_iff (hstub : StoresBytes stub memory) (ha : address + data.length ≤ 2 ^ 32) :
    WritesBulk stub memory address data link ↔ InPlace (memory link.stub) address data :=
  (writesBulk_iff_store hstub ha).trans inPlace_iff.symm

/-- At address 0 the first chunk is the right one. -/
theorem writesBulk_zero : WritesBulk memoryStub id 0 [0xBE, 0x01] ⟨fun _ => 0, []⟩ :=
  (writesBulk_iff memoryStub_storesBytes (by decide)).mpr (by
    intro i hi
    match i, hi with
    | 0, _ => rfl
    | 1, _ => rfl)

/-- One byte at `0x1000`: the slice from index `0x1000` is empty, so nothing is stored. -/
theorem not_writesBulk : ¬WritesBulk memoryStub id 0x1000 [0x41] ⟨fun _ => 0, []⟩ := by
  rw [writesBulk_iff_store memoryStub_storesBytes (by decide)]
  intro h
  have hbyte := congrFun h (0x1000 + 0)
  rw [Memory.store_at, Memory.store_at] at hbyte
  exact absurd hbyte (by decide)

/-- Whatever the memory holds, only an empty string, or a short one at address 0, is written. -/
theorem inPlace_always_iff : (∀ m, InPlace m address data) ↔ data = [] ∨ address = 0 ∧ data.length ≤ 255 := by
  constructor
  · intro h
    -- A byte outside the slice would have to be in memory already.
    have inside : ∀ i < data.length, i < 255 ∧ address + i < data.length := by
      intro i hi
      by_contra hout
      have hnone : (slice data address (address + 255))[i]? = none :=
        List.getElem?_eq_none (by rw [length_slice]; omega)
      have hi' := h (fun _ => data[i] + 1) i hi
      rw [hnone, Option.getD_none] at hi'
      bv_omega
    rcases Nat.eq_zero_or_pos data.length with h0 | h0
    · exact .inl (List.length_eq_zero_iff.mp h0)
    · obtain ⟨hshort, hstart⟩ := inside (data.length - 1) (by omega)
      exact .inr ⟨by omega, by omega⟩
  · rintro (rfl | ⟨rfl, hlen⟩) m i hi
    · exact absurd hi (Nat.not_lt_zero _)
    · rw [slice_zero_of_length_le _ _ (by omega), List.getElem?_eq_getElem hi, Option.getD_some]

end BulkWrite

end Avatar
