import Avatar.Lib.Traversal
import Avatar.Theorems.MessageCrc

/-! Packing and unpacking. For each entry of the table: which assignments of values to the fields that
    its unpack function produces come back from a serialized message. -/

namespace Avatar
open Bytes

namespace MessageRoundTrip

/-- What a field may hold: an unsigned integer, a byte string or a list of at most so many items. -/
inductive FieldKind where
  | uint8
  | uint16
  | uint32
  | bytes (longest : Option Nat)
  | uint32s (longest : Nat)
  | entries (longest : Nat)

def Unsigned (bits : Nat) (v : Int) : Prop := 0 ≤ v ∧ v < 2 ^ bits

def FieldKind.InRange : FieldKind → FieldValue → Prop
  | .uint8, .int v => Unsigned 8 v
  | .uint16, .int v => Unsigned 16 v
  | .uint32, .int v => Unsigned 32 v
  | .bytes longest, .bytes b => ∀ n ∈ longest, b.length ≤ n
  | .uint32s longest, .ints l => l.length ≤ longest ∧ ∀ v ∈ l, Unsigned 32 v
  | .entries longest, .entries l => l.length ≤ longest ∧
      ∀ x ∈ l, Unsigned 32 x.start ∧ Unsigned 32 x.stop ∧ Unsigned 32 x.flags
  | _, _ => False

/-- The fields that the unpack function of an opcode produces. -/
def fieldKinds : Byte → List (String × FieldKind)
  | 0x01 | 0x05 => [("address", .uint32), ("size", .uint8)]
  | 0x02 => [("address", .uint32), ("size", .uint8), ("value", .uint32)]
  | 0x03 => [("register", .uint8)]
  | 0x04 => [("register", .uint8), ("value", .uint32)]
  | 0x06 => [("address", .uint32), ("size", .uint8), ("data", .bytes (some 255))]
  | 0x07 => [("address", .uint32)]
  | 0x10 => [("page_address", .uint32), ("data", .bytes (some 64))]
  | 0x11 | 0x12 | 0xA4 => [("page_address", .uint32)]
  | 0x13 => [("entries", .entries 255)]
  | 0x20 => [("config", .uint32), ("irq_squelch", .uint16), ("fiq_squelch", .uint16),
      ("exceptions_vectors", .uint32s 8)]
  | 0x21 | 0xA0 => [("exception", .uint8)]
  | 0x81 | 0x82 => [("state", .uint8)]
  | 0xB2 => [("error", .uint8)]
  | 0x90 | 0x91 => [("value", .uint32)]
  | 0x92 => [("data", .bytes (some 64))]
  | 0x93 => [("addresses", .uint32s 255)]
  | 0x94 => [("data", .bytes none)]
  | _ => []

/-- An assignment of in-range values to the fields of an opcode, in any order. A size field agrees with
    the value or the data it describes. -/
structure Admissible (op : Byte) (options : List (String × FieldValue)) : Prop where
  keys : (options.map Prod.fst).Perm ((fieldKinds op).map Prod.fst)
  inRange : ∀ field kind, (field, kind) ∈ fieldKinds op →
    ∃ v, options.lookup field = some v ∧ kind.InRange v
  valueSize : op = 0x02 → ∀ n v, options.lookup "size" = some (.int n) → options.lookup "value" = some (.int v) →
    v < 256 ^ n.toNat
  dataSize : op = 0x06 → ∀ n b, options.lookup "size" = some (.int n) → options.lookup "data" = some (.bytes b) →
    n = b.length

/-- Reading `v` gives `w`: a lazy value is read item by item. -/
def Reads : FieldValue → FieldValue → Prop
  | .lazy l, .ints xs => l = xs.map .ok
  | v, w => v = w

/-- The message created from `options` is serialized, and the parser finds in the bytes a message with
    the same opcode, name and values. -/
def RoundTrips (op : Byte) (name : String) (options : List (String × FieldValue)) : Prop :=
  ∃ message data received, createAvatarMessage name options = .ok message ∧ message.serialize = .ok data ∧
    parseAvatarMessage data = .ok received ∧ received.opcode = op ∧ received.name = name ∧
    ∀ field, Option.Rel Reads (received.fields.lookup field) (options.lookup field)

def Survives (op : Byte) (options : List (String × FieldValue)) : Prop :=
  match op with
  | 0x02 => options.lookup "size" ≠ some (.int 1) ∧ options.lookup "size" ≠ some (.int 2)
  | 0x10 => options.lookup "data" = some (.bytes [])
  | 0x93 => options.lookup "addresses" = some (.ints [])
  | 0x13 | 0x20 | 0x42 | 0xB1 | 0x90 => False
  | _ => True

/-! ### Reduction to the pack and unpack functions -/

variable {op : Byte} {d : MessageDeclaration} {options : List (String × FieldValue)}

/-- What `fields` holds, `options` holds, and nothing else. -/
def Agree (fields options : List (String × FieldValue)) : Prop :=
  ∀ field, Option.Rel Reads (fields.lookup field) (options.lookup field)

theorem roundTrips_iff (hd : (op, d) ∈ messageDeclarations) : RoundTrips op d.name options ↔
    ∃ payload fields, d.pack ⟨op, d.name, options⟩ = .ok (.bytes payload) ∧ d.unpack payload = .ok fields ∧
      Agree fields options := by
  constructor
  · rintro ⟨message, data, received, hm, hs, hp, -, -, hagree⟩
    rw [createAvatarMessage_eq hd] at hm
    cases hm
    simp only [AvatarMessage.serialize, packer_eq hd, bind, Except.bind] at hs
    cases hpack : d.pack ⟨op, d.name, options⟩ with
    | error e =>
      rw [hpack] at hs
      cases hs
    | ok packed =>
      rw [hpack] at hs
      cases packed with
      | str s => cases hs
      | bytes payload =>
        cases hs
        cases hun : d.unpack payload with
        | error e =>
          obtain ⟨e', he'⟩ := MessageCrc.parseAvatarMessage_error (lookup_opcode hd) ⟨e, hun⟩
          rw [he'] at hp
          cases hp
        | ok fields =>
          rw [MessageCrc.parseAvatarMessage_ok (lookup_opcode hd) hun] at hp
          cases hp
          exact ⟨payload, fields, rfl, hun, hagree⟩
  · rintro ⟨payload, fields, hpack, hun, hagree⟩
    exact ⟨_, op :: payload, _, createAvatarMessage_eq hd, serialize_eq hd hpack,
      MessageCrc.parseAvatarMessage_ok (lookup_opcode hd) hun, rfl, rfl, hagree⟩

theorem mem_of_lookup_eq {l : List (String × FieldValue)} {field : String} {v : FieldValue}
    (h : l.lookup field = some v) : (field, v) ∈ l := by
  obtain ⟨l₁, l₂, hl, -⟩ := List.lookup_eq_some_iff.mp h
  rw [hl]
  exact List.mem_append_right _ (List.mem_cons_self ..)

theorem lookup_eq_none_of_notMem {l : List (String × FieldValue)} {field : String}
    (h : field ∉ l.map Prod.fst) : l.lookup field = none := by
  rw [List.lookup_eq_none_iff]
  intro x hx
  rw [bne_iff_ne]
  rintro rfl
  exact h (List.mem_map_of_mem hx)

/-- The parser's fields agree with the options when each of them reads as the option of its name. -/
theorem agree_of {fields : List (String × FieldValue)} (hadm : Admissible op options)
    (keys : fields.map Prod.fst = (fieldKinds op).map Prod.fst)
    (h : ∀ field v, (field, v) ∈ fields → ∃ w, options.lookup field = some w ∧ Reads v w) : Agree fields options := by
  intro field
  cases hf : fields.lookup field with
  | some v =>
    obtain ⟨w, hw, hr⟩ := h field v (mem_of_lookup_eq hf)
    rw [hw]
    exact .some hr
  | none =>
    have hnot : field ∉ options.map Prod.fst := by
      rw [hadm.keys.mem_iff, ← keys]
      intro hmem
      obtain ⟨x, hx, rfl⟩ := List.mem_map.mp hmem
      have := List.lookup_eq_none_iff.mp hf x hx
      simp at this
    rw [lookup_eq_none_of_notMem hnot]
    exact .none

theorem Agree.reads {fields : List (String × FieldValue)} (h : Agree fields options) {field : String}
    {v w : FieldValue} (hv : fields.lookup field = some v) (hw : options.lookup field = some w) : Reads v w := by
  have := h field
  rw [hv, hw] at this
  cases this with
  | some hr => exact hr

/-! ### The values of an admissible assignment -/

namespace Admissible
variable (h : Admissible op options) (field : String)
include h

theorem uint8 (hf : (field, .uint8) ∈ fieldKinds op) :
    ∃ v, options.lookup field = some (.int v) ∧ Unsigned 8 v := by
  obtain ⟨v, hv, hr⟩ := h.inRange field _ hf
  cases v with
  | int v => exact ⟨v, hv, hr⟩
  | _ => exact hr.elim

theorem uint16 (hf : (field, .uint16) ∈ fieldKinds op) :
    ∃ v, options.lookup field = some (.int v) ∧ Unsigned 16 v := by
  obtain ⟨v, hv, hr⟩ := h.inRange field _ hf
  cases v with
  | int v => exact ⟨v, hv, hr⟩
  | _ => exact hr.elim

theorem uint32 (hf : (field, .uint32) ∈ fieldKinds op) :
    ∃ v, options.lookup field = some (.int v) ∧ Unsigned 32 v := by
  obtain ⟨v, hv, hr⟩ := h.inRange field _ hf
  cases v with
  | int v => exact ⟨v, hv, hr⟩
  | _ => exact hr.elim

theorem bytes (longest : Option Nat) (hf : (field, .bytes longest) ∈ fieldKinds op) :
    ∃ b, options.lookup field = some (.bytes b) ∧ ∀ n ∈ longest, b.length ≤ n := by
  obtain ⟨v, hv, hr⟩ := h.inRange field _ hf
  cases v with
  | bytes b => exact ⟨b, hv, hr⟩
  | _ => exact hr.elim

theorem uint32s (longest : Nat) (hf : (field, .uint32s longest) ∈ fieldKinds op) :
    ∃ l, options.lookup field = some (.ints l) ∧ l.length ≤ longest ∧ ∀ v ∈ l, Unsigned 32 v := by
  obtain ⟨v, hv, hr⟩ := h.inRange field _ hf
  cases v with
  | ints l => exact ⟨l, hv, hr⟩
  | _ => exact hr.elim

end Admissible

/-! ### Integers -/

theorem fromUint32_eq {v : Int} (h : Unsigned 32 v) : fromUint32 (.int v) = .ok (toLE 4 v.toNat) := if_pos h

theorem fromUint16_eq {v : Int} (h : Unsigned 16 v) : fromUint16 (.int v) = .ok (toLE 2 v.toNat) := if_pos h

theorem toUint32_toLE {v : Int} (h : Unsigned 32 v) : toUint32 (toLE 4 v.toNat) = .ok (.int v) := by
  have hv : v.toNat < 256 ^ 4 := by
    obtain ⟨h0, h1⟩ := h
    omega
  have hslice : slice (toLE 4 v.toNat) 0 4 = toLE 4 v.toNat := slice_zero_of_length_le _ _ (by simp)
  rw [toUint32, hslice, if_pos (length_toLE ..), ofLE_toLE_of_lt hv, Int.toNat_of_nonneg h.1]

theorem toUint8_ofInt {v : Int} (h : Unsigned 8 v) : toUint8 [BitVec.ofInt 8 v] = .ok (.int v) := by
  have : ((BitVec.ofInt 8 v).toNat : Int) = v := by
    rw [BitVec.toNat_ofInt]
    obtain ⟨h0, h1⟩ := h
    omega
  show Except.ok (FieldValue.int ((BitVec.ofInt 8 v).toNat : Int)) = _
  rw [this]

theorem slice_first (l m : List Byte) : slice (l ++ m) 0 l.length = l := by
  simpa using slice_append_append l m []

/-! ### Entries of a common shape -/

theorem not_roundTrips_of_pack (hd : (op, d) ∈ messageDeclarations)
    (hpack : ∀ payload, d.pack ⟨op, d.name, options⟩ ≠ .ok (.bytes payload)) : ¬RoundTrips op d.name options := by
  rw [roundTrips_iff hd]
  rintro ⟨payload, fields, h, -⟩
  exact hpack payload h

section Shapes
variable (hd : (op, d) ∈ messageDeclarations) (hadm : Admissible op options)
include hd hadm
open MessageDeclaration

theorem roundTrips_nothing (hpack : d.pack = packNothing) (hunpack : d.unpack = fun _ => dict [])
    (hk : fieldKinds op = []) : RoundTrips op d.name options := by
  rw [roundTrips_iff hd, hpack, hunpack]
  exact ⟨[], [], rfl, rfl, agree_of hadm (by rw [hk]; rfl) fun _ _ h => absurd h List.not_mem_nil⟩

theorem roundTrips_uint8 {key : String} {j : Nat} (hj : 0 < j) (hpack : d.pack = packUint8 key)
    (hunpack : d.unpack = fun data => dict [(key, toUint8 (slice data 0 j))]) (hk : fieldKinds op = [(key, .uint8)]) :
    RoundTrips op d.name options := by
  obtain ⟨v, hv, hr⟩ := hadm.uint8 key (by simp [hk])
  have hslice : slice [BitVec.ofInt 8 v] 0 j = [BitVec.ofInt 8 v] := slice_zero_of_length_le _ _ hj
  rw [roundTrips_iff hd, hpack, hunpack]
  refine ⟨[BitVec.ofInt 8 v], [(key, .int v)], ?_, ?_, agree_of hadm (by simp [hk]) ?_⟩
  · rw [packUint8, attr_eq hv]
    rfl
  · simp only [hslice, toUint8_ofInt hr]
    rfl
  · intro field w hw
    simp only [List.mem_singleton, Prod.mk.injEq] at hw
    obtain ⟨rfl, rfl⟩ := hw
    exact ⟨_, hv, rfl⟩

theorem roundTrips_uint32 {key : String} (hpack : d.pack = packUint32 key)
    (hunpack : d.unpack = fun data => dict [(key, toUint32 (slice data 0 4))])
    (hk : fieldKinds op = [(key, .uint32)]) : RoundTrips op d.name options := by
  obtain ⟨v, hv, hr⟩ := hadm.uint32 key (by simp [hk])
  have hslice : slice (toLE 4 v.toNat) 0 4 = toLE 4 v.toNat := slice_zero_of_length_le _ _ (by simp)
  rw [roundTrips_iff hd, hpack, hunpack]
  refine ⟨toLE 4 v.toNat, [(key, .int v)], ?_, ?_, agree_of hadm (by simp [hk]) ?_⟩
  · rw [packUint32, attr_eq hv]
    simp only [bind, Except.bind, fromUint32_eq hr]
  · simp only [hslice, toUint32_toLE hr]
    rfl
  · intro field w hw
    simp only [List.mem_singleton, Prod.mk.injEq] at hw
    obtain ⟨rfl, rfl⟩ := hw
    exact ⟨_, hv, rfl⟩

theorem roundTrips_addressSize (hpack : d.pack = packAddressSize)
    (hunpack : d.unpack = fun data => dict [("address", toUint32 (slice data 0 4)), ("size", toUint8 (slice data 4 5))])
    (hk : fieldKinds op = [("address", .uint32), ("size", .uint8)]) : RoundTrips op d.name options := by
  obtain ⟨a, ha, hra⟩ := hadm.uint32 "address" (by simp [hk])
  obtain ⟨n, hn, hrn⟩ := hadm.uint8 "size" (by simp [hk])
  have hslice : slice (toLE 4 a.toNat ++ [BitVec.ofInt 8 n]) 0 4 = toLE 4 a.toNat := slice_first _ _
  have hslice' : slice (toLE 4 a.toNat ++ [BitVec.ofInt 8 n]) 4 5 = [BitVec.ofInt 8 n] :=
    slice_append_append [BitVec.ofInt 8 n] [] (toLE 4 a.toNat)
  rw [roundTrips_iff hd, hpack, hunpack]
  refine ⟨toLE 4 a.toNat ++ [BitVec.ofInt 8 n], [("address", .int a), ("size", .int n)], ?_, ?_,
    agree_of hadm (by simp [hk]) ?_⟩
  · simp only [packAddressSize, attr_eq ha, attr_eq hn, bind, Except.bind, fromUint32_eq hra]
    rfl
  · simp only [hslice, hslice', toUint32_toLE hra, toUint8_ofInt hrn]
    rfl
  · intro field w hw
    simp only [List.mem_cons, List.not_mem_nil, or_false, Prod.mk.injEq] at hw
    rcases hw with ⟨rfl, rfl⟩ | ⟨rfl, rfl⟩
    · exact ⟨_, ha, rfl⟩
    · exact ⟨_, hn, rfl⟩

end Shapes

/-! ### The other entries -/

section Entries
open MessageDeclaration

theorem roundTrips_writeMemory (hadm : Admissible 0x02 options) :
    RoundTrips 0x02 writeMemory.name options ↔ Survives 0x02 options := by
  have hd : ((0x02 : Byte), writeMemory) ∈ messageDeclarations := mem_of_lookup rfl
  obtain ⟨a, ha, hra⟩ := hadm.uint32 "address" (by simp [fieldKinds])
  obtain ⟨n, hn, hrn⟩ := hadm.uint8 "size" (by simp [fieldKinds])
  obtain ⟨v, hv, hrv⟩ := hadm.uint32 "value" (by simp [fieldKinds])
  have hvn := hadm.valueSize rfl n v hn hv
  -- The packed value has as many bytes as `from_size` gives for the size.
  have hpack : ∀ {bs}, fromSize (.int v) (.int n) = .ok bs → writeMemory.pack ⟨0x02, writeMemory.name, options⟩ =
      .ok (.bytes (toLE 4 a.toNat ++ [BitVec.ofInt 8 n] ++ bs)) := fun {bs} h => by
    simp only [writeMemory, attr_eq ha, attr_eq hn, attr_eq hv, bind, Except.bind, fromUint32_eq hra, h]
    rfl
  have short : ∀ {bs : List Byte}, fromSize (.int v) (.int n) = .ok bs → bs.length < 4 →
      ¬RoundTrips 0x02 writeMemory.name options := fun {bs} h hlen => by
    rw [roundTrips_iff hd, hpack h]
    rintro ⟨payload, fields, hp, hun, -⟩
    cases hp
    obtain ⟨e, he⟩ := (MessageCrc.width_cons "address" (MessageCrc.width_uint32 0) (MessageCrc.width_cons "size"
      (MessageCrc.width_uint8 (by decide : 4 < 5)) (MessageCrc.width_cons "value" (MessageCrc.width_uint32 5)
        MessageCrc.width_nil))).short (toLE 4 a.toNat ++ [BitVec.ofInt 8 n] ++ bs) (by simp; omega)
    rw [show writeMemory.unpack _ = _ from he] at hun
    cases hun
  have hsurvives : Survives 0x02 options ↔ n ≠ 1 ∧ n ≠ 2 := by
    simp [Survives, hn]
  rw [hsurvives]
  by_cases h1 : n = 1
  · subst h1
    have hsize : fromSize (.int v) (.int 1) = .ok [BitVec.ofInt 8 v] := rfl
    exact iff_of_false (short hsize (by simp)) (by simp)
  by_cases h2 : n = 2
  · subst h2
    have h16 : Unsigned 16 v := ⟨hrv.1, hvn⟩
    exact iff_of_false (short (fromUint16_eq h16) (by simp)) (by simp)
  refine iff_of_true ?_ ⟨h1, h2⟩
  have hsize : fromSize (.int v) (.int n) = .ok (toLE 4 v.toNat) := by
    unfold fromSize
    split
    · rename_i heq
      cases heq
      exact absurd rfl h1
    · rename_i heq
      cases heq
      exact absurd rfl h2
    · exact fromUint32_eq hrv
  have hs1 : slice (toLE 4 a.toNat ++ [BitVec.ofInt 8 n] ++ toLE 4 v.toNat) 0 4 = toLE 4 a.toNat := by
    rw [List.append_assoc]
    exact slice_first _ _
  have hs2 : slice (toLE 4 a.toNat ++ [BitVec.ofInt 8 n] ++ toLE 4 v.toNat) 4 5 = [BitVec.ofInt 8 n] := by
    rw [List.append_assoc]
    exact slice_append_append [BitVec.ofInt 8 n] (toLE 4 v.toNat) (toLE 4 a.toNat)
  have hs3 : slice (toLE 4 a.toNat ++ [BitVec.ofInt 8 n] ++ toLE 4 v.toNat) 5 9 = toLE 4 v.toNat := by
    have := slice_append_append (toLE 4 v.toNat) [] (toLE 4 a.toNat ++ [BitVec.ofInt 8 n])
    rwa [List.append_nil] at this
  rw [roundTrips_iff hd]
  refine ⟨_, [("address", .int a), ("size", .int n), ("value", .int v)], hpack hsize, ?_,
    agree_of hadm rfl ?_⟩
  · simp only [writeMemory, hs1, hs2, hs3, toUint32_toLE hra, toUint8_ofInt hrn, toUint32_toLE hrv]
    rfl
  · intro field w hw
    simp only [List.mem_cons, List.not_mem_nil, or_false, Prod.mk.injEq] at hw
    rcases hw with ⟨rfl, rfl⟩ | ⟨rfl, rfl⟩ | ⟨rfl, rfl⟩
    · exact ⟨_, ha, rfl⟩
    · exact ⟨_, hn, rfl⟩
    · exact ⟨_, hv, rfl⟩

theorem roundTrips_setRegister (hadm : Admissible 0x04 options) : RoundTrips 0x04 setRegister.name options := by
  obtain ⟨n, hn, hrn⟩ := hadm.uint8 "register" (by simp [fieldKinds])
  obtain ⟨v, hv, hrv⟩ := hadm.uint32 "value" (by simp [fieldKinds])
  have hs1 : slice ([BitVec.ofInt 8 n] ++ toLE 4 v.toNat) 0 1 = [BitVec.ofInt 8 n] := slice_first _ _
  have hs2 : slice ([BitVec.ofInt 8 n] ++ toLE 4 v.toNat) 1 5 = toLE 4 v.toNat := by
    have := slice_append_append (toLE 4 v.toNat) [] [BitVec.ofInt 8 n]
    rwa [List.append_nil] at this
  rw [roundTrips_iff (mem_of_lookup rfl)]
  refine ⟨[BitVec.ofInt 8 n] ++ toLE 4 v.toNat, [("register", .int n), ("value", .int v)], ?_, ?_,
    agree_of hadm rfl ?_⟩
  · simp only [setRegister, attr_eq hn, attr_eq hv, bind, Except.bind, fromUint32_eq hrv]
    rfl
  · simp only [setRegister, hs1, hs2, toUint8_ofInt hrn, toUint32_toLE hrv]
    rfl
  · intro field w hw
    simp only [List.mem_cons, List.not_mem_nil, or_false, Prod.mk.injEq] at hw
    rcases hw with ⟨rfl, rfl⟩ | ⟨rfl, rfl⟩
    · exact ⟨_, hn, rfl⟩
    · exact ⟨_, hv, rfl⟩

theorem roundTrips_writeUntypedMemory (hadm : Admissible 0x06 options) :
    RoundTrips 0x06 writeUntypedMemory.name options := by
  obtain ⟨a, ha, hra⟩ := hadm.uint32 "address" (by simp [fieldKinds])
  obtain ⟨n, hn, hrn⟩ := hadm.uint8 "size" (by simp [fieldKinds])
  obtain ⟨b, hb, -⟩ := hadm.bytes "data" (some 255) (by simp [fieldKinds])
  have hlen := hadm.dataSize rfl n b hn hb
  have hs1 : slice (toLE 4 a.toNat ++ [BitVec.ofInt 8 n] ++ b) 0 4 = toLE 4 a.toNat := by
    rw [List.append_assoc]
    exact slice_first _ _
  have hs2 : slice (toLE 4 a.toNat ++ [BitVec.ofInt 8 n] ++ b) 4 5 = [BitVec.ofInt 8 n] := by
    rw [List.append_assoc]
    exact slice_append_append [BitVec.ofInt 8 n] b (toLE 4 a.toNat)
  have hs3 : (toLE 4 a.toNat ++ [BitVec.ofInt 8 n] ++ b).drop 5 = b := List.drop_left' rfl
  rw [roundTrips_iff (mem_of_lookup rfl)]
  refine ⟨toLE 4 a.toNat ++ [BitVec.ofInt 8 n] ++ b, [("address", .int a), ("size", .int n), ("data", .bytes b)],
    ?_, ?_, agree_of hadm rfl ?_⟩
  · simp only [writeUntypedMemory, attr_eq ha, attr_eq hb, bind, Except.bind, fromUint32_eq hra, hlen]
    rfl
  · simp only [writeUntypedMemory, hs1, hs2, hs3, toUint32_toLE hra, toUint8_ofInt hrn]
    rfl
  · intro field w hw
    simp only [List.mem_cons, List.not_mem_nil, or_false, Prod.mk.injEq] at hw
    rcases hw with ⟨rfl, rfl⟩ | ⟨rfl, rfl⟩ | ⟨rfl, rfl⟩
    · exact ⟨_, ha, rfl⟩
    · exact ⟨_, hn, rfl⟩
    · exact ⟨_, hb, rfl⟩

/-- The page is packed right behind the address and unpacked from one byte further. -/
theorem roundTrips_insertPage (hadm : Admissible 0x10 options) :
    RoundTrips 0x10 insertPage.name options ↔ Survives 0x10 options := by
  obtain ⟨a, ha, hra⟩ := hadm.uint32 "page_address" (by simp [fieldKinds])
  obtain ⟨b, hb, -⟩ := hadm.bytes "data" (some 64) (by simp [fieldKinds])
  have hpack : insertPage.pack ⟨0x10, insertPage.name, options⟩ = .ok (.bytes (toLE 4 a.toNat ++ b)) := by
    simp only [insertPage, attr_eq ha, attr_eq hb, bind, Except.bind, fromUint32_eq hra]
    rfl
  have hunpack : insertPage.unpack (toLE 4 a.toNat ++ b) =
      .ok [("page_address", .int a), ("data", .bytes (slice (toLE 4 a.toNat ++ b) 5 69))] := by
    have hs : slice (toLE 4 a.toNat ++ b) 0 4 = toLE 4 a.toNat := slice_first _ _
    simp only [insertPage, hs, toUint32_toLE hra]
    rfl
  rw [roundTrips_iff (mem_of_lookup rfl), hpack, show Survives 0x10 options ↔ b = [] by simp [Survives, hb]]
  constructor
  · rintro ⟨payload, fields, hp, hun, hagree⟩
    cases hp
    rw [hunpack] at hun
    cases hun
    have hr : Reads (.bytes (slice (toLE 4 a.toNat ++ b) 5 69)) (.bytes b) := hagree.reads rfl hb
    have heq : slice (toLE 4 a.toNat ++ b) 5 69 = b := FieldValue.bytes.inj hr
    have hlen := congrArg List.length heq
    simp only [length_slice, List.length_append, length_toLE] at hlen
    exact List.eq_nil_of_length_eq_zero (by omega)
  · rintro rfl
    refine ⟨_, _, rfl, hunpack, agree_of hadm rfl ?_⟩
    intro field w hw
    have hs : slice (toLE 4 a.toNat ++ []) 5 69 = [] := slice_eq_nil_of_le _ _ _ (by simp)
    simp only [hs, List.mem_cons, List.not_mem_nil, or_false, Prod.mk.injEq] at hw
    rcases hw with ⟨rfl, rfl⟩ | ⟨rfl, rfl⟩
    · exact ⟨_, ha, rfl⟩
    · exact ⟨_, hb, rfl⟩

theorem roundTrips_replyExtractPage (hadm : Admissible 0x92 options) :
    RoundTrips 0x92 replyExtractPage.name options := by
  obtain ⟨b, hb, hlen⟩ := hadm.bytes "data" (some 64) (by simp [fieldKinds])
  have hs : slice b 0 64 = b := slice_zero_of_length_le _ _ (hlen 64 rfl)
  rw [roundTrips_iff (mem_of_lookup rfl)]
  refine ⟨b, [("data", .bytes b)], ?_, ?_, agree_of hadm rfl ?_⟩
  · simp only [replyExtractPage, attr_eq hb, bind, Except.bind]
    rfl
  · simp only [replyExtractPage, hs]
    rfl
  · intro field w hw
    simp only [List.mem_singleton, Prod.mk.injEq] at hw
    obtain ⟨rfl, rfl⟩ := hw
    exact ⟨_, hb, rfl⟩

theorem roundTrips_replyReadUntypedMemory (hadm : Admissible 0x94 options) :
    RoundTrips 0x94 replyReadUntypedMemory.name options := by
  obtain ⟨b, hb, -⟩ := hadm.bytes "data" none (by simp [fieldKinds])
  rw [roundTrips_iff (mem_of_lookup rfl)]
  refine ⟨b, [("data", .bytes b)], ?_, rfl, agree_of hadm rfl ?_⟩
  · simp only [replyReadUntypedMemory, attr_eq hb, bind, Except.bind]
    rfl
  · intro field w hw
    simp only [List.mem_singleton, Prod.mk.injEq] at hw
    obtain ⟨rfl, rfl⟩ := hw
    exact ⟨_, hb, rfl⟩

/-- Every address is lost when the field is read, so only an empty list comes back. -/
theorem roundTrips_replyGetDirtyPages (hadm : Admissible 0x93 options) :
    RoundTrips 0x93 replyGetDirtyPages.name options ↔ Survives 0x93 options := by
  obtain ⟨l, hl, hlen, hrange⟩ := hadm.uint32s "addresses" 255 (by simp [fieldKinds])
  have hpack : replyGetDirtyPages.pack ⟨0x93, replyGetDirtyPages.name, options⟩ =
      .ok (.bytes (BitVec.ofNat 8 l.length :: (l.map fun v => toLE 4 v.toNat).flatten)) := by
    simp only [replyGetDirtyPages, attr_eq hl, bind, Except.bind, FieldValue.len, if_pos (show l.length < 256 by omega),
      Traversal.mapM_eq_ok fun v hv => fromUint32_eq (hrange v hv)]
    rfl
  have hcount : min (4 * (BitVec.ofNat 8 l.length).toNat) (l.map fun v => toLE 4 v.toNat).flatten.length / 4 =
      l.length := by
    have : (l.map fun v => toLE 4 v.toNat).flatten.length = 4 * l.length := by
      simp [List.length_flatten, Function.comp_def, Nat.mul_comm]
    rw [this, BitVec.toNat_ofNat, Nat.mod_eq_of_lt (by omega)]
    omega
  rw [roundTrips_iff (mem_of_lookup rfl), hpack, show Survives 0x93 options ↔ l = [] by simp [Survives, hl]]
  constructor
  · rintro ⟨payload, fields, hp, hun, hagree⟩
    cases hp
    rw [MessageCrc.replyGetDirtyPages_unpack, hcount] at hun
    cases hun
    have hr : Reads (.lazy (List.replicate l.length (.error .typeError))) (.ints l) := hagree.reads rfl hl
    cases l with
    | nil => rfl
    | cons v l => simp [Reads, List.replicate_succ] at hr
  · rintro rfl
    refine ⟨_, _, rfl, MessageCrc.replyGetDirtyPages_unpack _ _, agree_of hadm rfl ?_⟩
    intro field w hw
    simp only [List.mem_singleton, Prod.mk.injEq] at hw
    obtain ⟨rfl, rfl⟩ := hw
    exact ⟨_, hl, rfl⟩

theorem not_roundTrips_setMemoryMap : ¬RoundTrips 0x13 setMemoryMap.name options := by
  rw [roundTrips_iff (mem_of_lookup rfl)]
  rintro ⟨payload, fields, -, hun, -⟩
  simp only [setMemoryMap, index, ord] at hun
  cases h : payload[0]? <;> rw [h] at hun <;> cases hun

theorem not_roundTrips_setExceptionConfig (hadm : Admissible 0x20 options) :
    ¬RoundTrips 0x20 setExceptionConfig.name options := by
  obtain ⟨v, hv, -⟩ := hadm.uint32 "config" (by simp [fieldKinds])
  refine not_roundTrips_of_pack (mem_of_lookup rfl) fun payload h => ?_
  simp only [setExceptionConfig, attr_eq hv, bind, Except.bind, toUint32Field] at h
  cases h

/-- The reply is unpacked to a value and packed from data. -/
theorem not_roundTrips_replyReadMemory (hadm : Admissible 0x90 options) :
    ¬RoundTrips 0x90 replyReadMemory.name options := by
  have hdata : options.lookup "data" = none := lookup_eq_none_of_notMem (by rw [hadm.keys.mem_iff]; decide)
  refine not_roundTrips_of_pack (mem_of_lookup rfl) fun payload h => ?_
  simp only [replyReadMemory, AvatarMessage.attr, hdata, bind, Except.bind] at h
  cases h

end Entries

/-! ### The table -/

open MessageDeclaration in
/-- An admissible assignment of a declaration comes back exactly when it is one of the surviving ones. -/
theorem roundTrips_iff_survives (hd : (op, d) ∈ messageDeclarations) (hadm : Admissible op options) :
    RoundTrips op d.name options ↔ Survives op options := by
  have nothing : ∀ {op d}, (op, d) ∈ messageDeclarations → d.pack = packNothing → (d.unpack = fun _ => dict []) →
      fieldKinds op = [] → Survives op options → Admissible op options →
      (RoundTrips op d.name options ↔ Survives op options) :=
    fun hd hp hu hk hs hadm => iff_of_true (roundTrips_nothing hd hadm hp hu hk) hs
  have uint8 : ∀ {op d} {key : String} (j : Nat), (op, d) ∈ messageDeclarations → 0 < j → d.pack = packUint8 key →
      (d.unpack = fun data => dict [(key, toUint8 (slice data 0 j))]) → fieldKinds op = [(key, .uint8)] →
      Survives op options → Admissible op options → (RoundTrips op d.name options ↔ Survives op options) :=
    fun _ hd hj hp hu hk hs hadm => iff_of_true (roundTrips_uint8 hd hadm hj hp hu hk) hs
  have uint32 : ∀ {op d} {key : String}, (op, d) ∈ messageDeclarations → d.pack = packUint32 key →
      (d.unpack = fun data => dict [(key, toUint32 (slice data 0 4))]) → fieldKinds op = [(key, .uint32)] →
      Survives op options → Admissible op options → (RoundTrips op d.name options ↔ Survives op options) :=
    fun hd hp hu hk hs hadm => iff_of_true (roundTrips_uint32 hd hadm hp hu hk) hs
  have text : ∀ {op d}, (op, d) ∈ messageDeclarations → d.pack = packEmptyText → ¬Survives op options →
      Admissible op options → (RoundTrips op d.name options ↔ Survives op options) :=
    fun hd hp hs _ => iff_of_false (not_roundTrips_of_pack hd fun _ h => by rw [hp] at h; cases h) hs
  revert hadm
  revert op d
  apply declarations_cases
  case readMemory => exact fun hadm => iff_of_true (roundTrips_addressSize (mem_of_lookup rfl) hadm rfl rfl rfl) trivial
  case writeMemory => exact roundTrips_writeMemory
  case getRegister => exact uint8 1 (mem_of_lookup rfl) (by decide) rfl rfl rfl trivial
  case setRegister => exact fun hadm => iff_of_true (roundTrips_setRegister hadm) trivial
  case readUntypedMemory =>
    exact fun hadm => iff_of_true (roundTrips_addressSize (mem_of_lookup rfl) hadm rfl rfl rfl) trivial
  case writeUntypedMemory => exact fun hadm => iff_of_true (roundTrips_writeUntypedMemory hadm) trivial
  case codeletExecute => exact uint32 (mem_of_lookup rfl) rfl rfl rfl trivial
  case insertPage => exact roundTrips_insertPage
  case extractPage => exact uint32 (mem_of_lookup rfl) rfl rfl rfl trivial
  case unmapPage => exact uint32 (mem_of_lookup rfl) rfl rfl rfl trivial
  case setMemoryMap => exact fun _ => iff_of_false not_roundTrips_setMemoryMap id
  case getDirtyPages => exact nothing (mem_of_lookup rfl) rfl rfl rfl trivial
  case setExceptionConfig => exact fun hadm => iff_of_false (not_roundTrips_setExceptionConfig hadm) id
  case clearException => exact uint8 4 (mem_of_lookup rfl) (by decide) rfl rfl rfl trivial
  case resumeVm => exact nothing (mem_of_lookup rfl) rfl rfl rfl trivial
  case queryState => exact nothing (mem_of_lookup rfl) rfl rfl rfl trivial
  case continueFromPagefault => exact text (mem_of_lookup rfl) rfl id
  case infoException => exact uint8 1 (mem_of_lookup rfl) (by decide) rfl rfl rfl trivial
  case pagefault => exact uint32 (mem_of_lookup rfl) rfl rfl rfl trivial
  case state => exact uint8 1 (mem_of_lookup rfl) (by decide) rfl rfl rfl trivial
  case replyState => exact uint8 1 (mem_of_lookup rfl) (by decide) rfl rfl rfl trivial
  case replyOk => exact text (mem_of_lookup rfl) rfl id
  case replyError => exact uint8 1 (mem_of_lookup rfl) (by decide) rfl rfl rfl trivial
  case replyReadMemory => exact fun hadm => iff_of_false (not_roundTrips_replyReadMemory hadm) id
  case replyGetRegister => exact uint32 (mem_of_lookup rfl) rfl rfl rfl trivial
  case replyExtractPage => exact fun hadm => iff_of_true (roundTrips_replyExtractPage hadm) trivial
  case replyGetDirtyPages => exact roundTrips_replyGetDirtyPages
  case replyReadUntypedMemory => exact fun hadm => iff_of_true (roundTrips_replyReadUntypedMemory hadm) trivial
  case replyCodeletExecutionFinished => exact nothing (mem_of_lookup rfl) rfl rfl rfl trivial

theorem roundTrips_setPc : RoundTrips 0x04 MessageDeclaration.setRegister.name
    [("register", .int 15), ("value", .int 0x1000)] := by
  refine (roundTrips_iff_survives (mem_of_lookup rfl) ⟨.refl _, ?_, fun h => ?_, fun h => ?_⟩).mpr trivial
  · intro field kind h
    replace h : (field, kind) ∈ [("register", FieldKind.uint8), ("value", .uint32)] := h
    simp only [List.mem_cons, List.not_mem_nil, or_false, Prod.mk.injEq] at h
    rcases h with ⟨rfl, rfl⟩ | ⟨rfl, rfl⟩
    · exact ⟨_, rfl, by simp [FieldKind.InRange, Unsigned]⟩
    · exact ⟨_, rfl, by simp [FieldKind.InRange, Unsigned]⟩
  · exact absurd h (by decide)
  · exact absurd h (by decide)

/-- A byte written to memory: the packed value is too short for the unpack function. -/
theorem not_all_roundTrip : ¬∀ (op : Byte) (d : MessageDeclaration) (options : List (String × FieldValue)),
    (op, d) ∈ messageDeclarations → Admissible op options → RoundTrips op d.name options := by
  intro h
  have hadm : Admissible 0x02 [("address", .int 0x1000), ("size", .int 1), ("value", .int 0x41)] := by
    refine ⟨.refl _, ?_, fun _ n v hn hv => ?_, fun h => absurd h (by decide)⟩
    · intro field kind h
      replace h : (field, kind) ∈ [("address", FieldKind.uint32), ("size", .uint8), ("value", .uint32)] := h
      simp only [List.mem_cons, List.not_mem_nil, or_false, Prod.mk.injEq] at h
      rcases h with ⟨rfl, rfl⟩ | ⟨rfl, rfl⟩ | ⟨rfl, rfl⟩
      · exact ⟨_, rfl, by simp [FieldKind.InRange, Unsigned]⟩
      · exact ⟨_, rfl, by simp [FieldKind.InRange, Unsigned]⟩
      · exact ⟨_, rfl, by simp [FieldKind.InRange, Unsigned]⟩
    · cases hn
      cases hv
      decide
  exact ((roundTrips_writeMemory hadm).mp (h _ _ _ (mem_of_lookup rfl) hadm)).1 rfl

end MessageRoundTrip

end Avatar
