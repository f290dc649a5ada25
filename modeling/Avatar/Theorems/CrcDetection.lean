import Avatar.Lib.Crc
import Avatar.AvatarStub.Lowlevel

/-! What the check of `parse_message` sees. The two tables of `Crc8` are eight shifts of a register with the
    polynomial `X^8 + X^5 + X^4 + 1`, so the check accepts a frame exactly when the register of all its bits,
    the CRC included, is zero, and an error is seen exactly when its own register is not. -/

namespace Avatar
open Bytes

namespace CrcDetection

/-- The polynomial without its leading term, in the order of the register. -/
def polynomial : Byte := 0x8C

/-- The bits of a byte string: bit `b` of byte `i` is at the position `8 * i + b`. -/
def bits (data : List Byte) : List Bool := data.flatMap fun byte => (List.range 8).map byte.getLsbD

/-- The strings of equal length, combined with an exclusive or. -/
def xor (data error : List Byte) : List Byte := List.zipWith (· ^^^ ·) data error

/-- All set bits of the error are within 8 consecutive positions. -/
def Burst (error : List Byte) : Prop := ∃ p : Nat, ∀ i : Nat, (bits error)[i]? = some true → p ≤ i ∧ i < p + 8

def OddWeight (error : List Byte) : Prop := (bits error).count true % 2 = 1

/-- Exactly two bits are set, at most 63 positions apart. -/
def ClosePair (error : List Byte) : Prop :=
  ∃ i j : Nat, i < j ∧ j - i ≤ 63 ∧ ∀ k : Nat, (bits error)[k]? = some true ↔ k = i ∨ k = j

/-! ### The tables -/

theorem ofBits_byte (byte : Byte) : Crc.ofBits ((List.range 8).map byte.getLsbD) = byte := by
  apply BitVec.eq_of_getLsbD_eq
  intro i hi
  rw [Crc.getLsbD_ofBits, decide_eq_true hi, Bool.true_and, List.getElem?_map, List.getElem?_range hi]
  rfl

theorem length_byteBits (byte : Byte) : ((List.range 8).map byte.getLsbD).length = 8 := by
  rw [List.length_map, List.length_range]

theorem tables_eq_shifts : ∀ x : Byte,
    Crc8.R1.getD (x &&& 0xF).toNat 0 ^^^ Crc8.R2.getD ((x >>> 4) &&& 0xF).toNat 0 =
      (Crc.shift polynomial)^[8] x := by
  decide +kernel

/-- One byte of the table-driven loop is eight bits of the register. -/
theorem addByte_eq_register (crc byte : Byte) :
    Crc8.addByte crc byte = Crc.register polynomial crc ((List.range 8).map byte.getLsbD) := by
  rw [Crc.register_eq_iterate _ (Nat.le_of_eq (length_byteBits byte)), length_byteBits, ofBits_byte, BitVec.xor_comm]
  exact tables_eq_shifts (byte ^^^ crc)

theorem addBytes_eq_register (crc : Byte) (data : List Byte) :
    Crc8.addBytes crc data = Crc.register polynomial crc (bits data) := by
  induction data generalizing crc with
  | nil => rfl
  | cons byte data ih =>
    rw [bits, List.flatMap_cons, Crc.register_append, ← addByte_eq_register]
    exact ih _

/-! ### The check -/

/-- The check accepts a string exactly when nothing is left in the register behind its last byte. -/
theorem crcMatches_iff {data : List Byte} :
    AvatarLowlevelProtocol.crcMatches data = true ↔ data ≠ [] ∧ Crc.register polynomial 0#8 (bits data) = 0#8 := by
  rcases List.eq_nil_or_concat data with rfl | ⟨body, byte, rfl⟩
  · exact iff_of_false Bool.false_ne_true fun h => h.1 rfl
  have hbyte : Crc8.addByte (crc8 body) byte = 0#8 ↔ byte = crc8 body := by
    rw [addByte_eq_register, Crc.register_eq_iterate _ (Nat.le_of_eq (length_byteBits byte)), ofBits_byte]
    constructor
    · intro h
      by_contra hne
      exact Crc.iterate_shift_ne_zero (by decide) (mt BitVec.xor_eq_zero_iff.mp (Ne.symm hne)) _ h
    · rintro rfl
      rw [BitVec.xor_self]
      exact Crc.iterate_shift_zero _
  have hregister : Crc.register polynomial 0#8 (bits (body ++ [byte])) = Crc8.addByte (crc8 body) byte := by
    rw [← addBytes_eq_register, Crc8.addBytes, List.foldl_append]
    rfl
  rw [List.concat_eq_append, hregister, hbyte, AvatarLowlevelProtocol.crcMatches, List.getLast?_concat,
    List.dropLast_concat, beq_iff_eq, Option.some_inj]
  exact ⟨fun h => ⟨List.append_ne_nil_of_right_ne_nil _ (List.cons_ne_nil _ _), h⟩, And.right⟩

theorem bits_xor {data error : List Byte} (h : error.length = data.length) :
    bits (xor data error) = List.zipWith (· ^^ ·) (bits data) (bits error) := by
  induction data generalizing error with
  | nil => rfl
  | cons byte data ih =>
    cases error with
    | nil => cases h
    | cons byte' error =>
      have hrest := ih (Nat.succ.inj h)
      simp only [xor, bits] at hrest ⊢
      rw [List.zipWith_cons_cons, List.flatMap_cons, List.flatMap_cons, List.flatMap_cons, hrest,
        List.zipWith_append (by rw [length_byteBits, length_byteBits]), List.zipWith_map_left, List.zipWith_map_right,
        List.zipWith_self]
      exact congrArg (· ++ _) (List.map_congr_left fun _ _ => BitVec.getLsbD_xor)

theorem length_bits (data : List Byte) : (bits data).length = 8 * data.length := by
  simp [bits, Nat.mul_comm]

/-- An error is seen exactly when it leaves something in the register. -/
theorem rejected_iff {data error : List Byte} (hlen : error.length = data.length)
    (h : AvatarLowlevelProtocol.crcMatches data = true) :
    AvatarLowlevelProtocol.crcMatches (xor data error) = false ↔ Crc.register polynomial 0#8 (bits error) ≠ 0#8 := by
  obtain ⟨hne, hzero⟩ := crcMatches_iff.mp h
  have hregister : Crc.register polynomial 0#8 (bits (xor data error)) = Crc.register polynomial 0#8 (bits error) := by
    have hsum : Crc.register polynomial (0#8 ^^^ 0#8) (List.zipWith (· ^^ ·) (bits data) (bits error)) =
        Crc.register polynomial 0#8 (bits data) ^^^ Crc.register polynomial 0#8 (bits error) :=
      Crc.register_xor 0#8 0#8 (by rw [length_bits, length_bits, hlen])
    rwa [hzero, ← bits_xor hlen, BitVec.xor_self, BitVec.zero_xor] at hsum
  have hxor : xor data error ≠ [] := by
    rw [← List.length_pos_iff, xor, List.length_zipWith, hlen, Nat.min_self]
    exact List.length_pos_iff.mpr hne
  rw [← Bool.not_eq_true, crcMatches_iff, hregister, not_and]
  exact ⟨fun h => h hxor, fun h _ => h⟩

/-! ### The errors -/

/-- The parity of a byte. -/
def parity (x : Byte) : Bool := (List.range 8).foldl (fun p i => p ^^ x.getLsbD i) false

theorem foldl_xor (f g : Nat → Bool) (l : List Nat) (a b : Bool) :
    l.foldl (fun p i => p ^^ (f i ^^ g i)) (a ^^ b) =
      (l.foldl (fun p i => p ^^ f i) a ^^ l.foldl (fun p i => p ^^ g i) b) := by
  induction l generalizing a b with
  | nil => rfl
  | cons i l ih =>
    have hswap : (a ^^ b ^^ (f i ^^ g i)) = (a ^^ f i ^^ (b ^^ g i)) := by
      cases a <;> cases b <;> cases f i <;> cases g i <;> rfl
    rw [List.foldl_cons, List.foldl_cons, List.foldl_cons, hswap, ih]

theorem parity_xor (c d : Byte) : parity (c ^^^ d) = (parity c ^^ parity d) := by
  simp only [parity, BitVec.getLsbD_xor]
  exact foldl_xor c.getLsbD d.getLsbD _ false false

theorem parity_shift : ∀ c : Byte, parity (Crc.shift polynomial c) = parity c := by decide +kernel

/-- No number of shifts up to 63 brings the register back to a single bit. -/
theorem period : ∀ n ≤ 63, 0 < n → (Crc.shift polynomial)^[n] 1 ≠ 1 := by decide +kernel

theorem true_mem_bits {error : List Byte} (h : ∃ byte ∈ error, byte ≠ 0) : true ∈ bits error := by
  obtain ⟨byte, hmem, hne⟩ := h
  by_contra hfalse
  refine hne (BitVec.eq_of_getLsbD_eq fun i hi => ?_)
  have hbit : byte.getLsbD i = false := Bool.not_eq_true _ ▸ fun hbit =>
    hfalse (List.mem_flatMap.mpr ⟨byte, hmem, List.mem_map.mpr ⟨i, List.mem_range.mpr hi, hbit⟩⟩)
  exact hbit.trans BitVec.getLsbD_zero.symm

/-- A frame that the check accepts is no longer accepted when a short burst, an odd number of bits or two close
    bits of it are wrong. -/
theorem error_detected {data error : List Byte} (haccept : AvatarLowlevelProtocol.crcMatches data = true)
    (hlen : error.length = data.length) (hne : ∃ byte ∈ error, byte ≠ 0)
    (h : Burst error ∨ OddWeight error ∨ ClosePair error) :
    AvatarLowlevelProtocol.crcMatches (xor data error) = false := by
  rw [rejected_iff hlen haccept]
  rcases h with ⟨p, hburst⟩ | hodd | ⟨i, j, hij, hclose, hpair⟩
  · exact Crc.register_burst_ne_zero (by decide) (true_mem_bits hne) hburst
  · intro hzero
    have hcount : (bits error).count true % 2 = 1 := hodd
    have hparity := Crc.functional_register parity_xor rfl parity_shift 0#8 (bits error)
    rw [hzero, decide_eq_true hcount] at hparity
    cases hparity
  · exact Crc.register_pair_ne_zero (by decide) hij (period (j - i) hclose (Nat.sub_pos_of_lt hij)) hpair

/-- An `AVATAR_RPC_DTH_REPLY_OK` whose opcode arrives with its lowest bit cleared. -/
theorem error_detected_replyOk :
    AvatarLowlevelProtocol.crcMatches (xor [0xB1, crc8 [0xB1]] [0x01, 0x00]) = false :=
  error_detected (by decide) rfl ⟨0x01, .head _, by decide⟩ (.inr (.inl (by unfold OddWeight; decide)))

end CrcDetection

end Avatar
