import Avatar.Lib.Bytes

/-! The ASCII encoding. A text is a list of characters. -/

namespace Ascii
open Bytes

def IsAscii (s : List Char) : Prop := ∀ c ∈ s, c.toNat < 128

instance (s : List Char) : Decidable (IsAscii s) := List.decidableBAll (fun c : Char => c.toNat < 128) s

instance (bytes : List Byte) : Decidable (∀ b ∈ bytes, b.toNat < 128) :=
  List.decidableBAll (fun b : Byte => b.toNat < 128) bytes

def byte (c : Char) : Byte := BitVec.ofNat 8 c.toNat

def char (b : Byte) : Char := Char.ofNat b.toNat

def encode (s : List Char) : Option (List Byte) := if IsAscii s then some (s.map byte) else none

def decode (bytes : List Byte) : Option (List Char) :=
  if ∀ b ∈ bytes, b.toNat < 128 then some (bytes.map char) else none

theorem toNat_byte {c : Char} (h : c.toNat < 128) : (byte c).toNat = c.toNat := by
  rw [byte, BitVec.toNat_ofNat, Nat.mod_eq_of_lt (by omega)]

theorem toNat_char (b : Byte) : (char b).toNat = b.toNat := by
  have hlt : b.toNat < 256 := b.isLt
  have hvalid : b.toNat.isValidChar := Or.inl (by omega)
  rw [char, Char.ofNat, dif_pos hvalid]
  rfl

@[simp] theorem char_byte {c : Char} (h : c.toNat < 128) : char (byte c) = c := by
  rw [char, toNat_byte h, Char.ofNat_toNat]

theorem byte_inj {c d : Char} (hc : c.toNat < 128) (hd : d.toNat < 128) (h : byte c = byte d) : c = d := by
  rw [← char_byte hc, h, char_byte hd]

/-- An ASCII character is in a text as its byte is in the bytes. -/
theorem byte_mem_map {s : List Char} (hs : IsAscii s) {c : Char} (hc : c.toNat < 128) :
    byte c ∈ s.map byte ↔ c ∈ s := by
  constructor
  · intro h
    obtain ⟨d, hd, heq⟩ := List.mem_map.mp h
    rwa [← byte_inj (hs d hd) hc heq]
  · exact List.mem_map_of_mem

theorem encode_of_isAscii {s : List Char} (h : IsAscii s) : encode s = some (s.map byte) := if_pos h

/-- What has been encoded is decoded. -/
theorem decode_map_byte {s : List Char} (h : IsAscii s) : decode (s.map byte) = some s := by
  have hbytes : ∀ b ∈ s.map byte, b.toNat < 128 := by
    intro b hb
    obtain ⟨c, hc, rfl⟩ := List.mem_map.mp hb
    rw [toNat_byte (h c hc)]
    exact h c hc
  rw [decode, if_pos hbytes, List.map_map]
  refine congrArg some ((List.map_congr_left fun c hc => ?_).trans (List.map_id s))
  exact char_byte (h c hc)

theorem isAscii_append {s t : List Char} : IsAscii (s ++ t) ↔ IsAscii s ∧ IsAscii t := List.forall_mem_append

end Ascii
