import Mathlib.Data.List.FinRange
import Avatar.Theorems.GdbRegisters

/-! Reading registers through GDB packets. The server replies with the digits of the little-endian bytes. The decoder
    of the client for all registers fails on any reply, and the one for a single register takes the digits for the
    bytes, so only the value whose bytes are their own first digits comes through. -/

namespace Avatar.GdbServer
open Bytes GdbPackets GdbProtocol StateExcept GdbRegisters

namespace RegisterEncodings
variable {σ β : Type} {debuggable : Debuggable σ β} {file : σ → Fin 17 → BitVec 32} {s : GdbServer σ β}

/-- The name of a register, by its place in the list of the server -/
def registerName (i : Fin 17) : String := registers.get i

/-- The registers of the debuggable are a register file. Reading them keeps it. -/
structure HoldsRegisters (debuggable : Debuggable σ β) (file : σ → Fin 17 → BitVec 32) : Prop where
  byName : ∀ (i : Fin 17) (d : σ), (debuggable.getRegister (registerName i) d).1 = (file d i).toNat ∧
    file (debuggable.getRegister (registerName i) d).2 = file d
  byNumber : ∀ (i : Fin 17) (d : σ), i < 16 → (debuggable.getRegisterFromNr i d).1 = (file d i).toNat

/-- The values of a register file under their names, in the order of the server -/
def named (R : Fin 17 → BitVec 32) : List (String × Int) := List.ofFn fun i => (registerName i, (R i).toNat)

/-- The server replies to `get_registers`, which returns the values of all registers. -/
def AllAgree (debuggable : Debuggable σ β) (file : σ → Fin 17 → BitVec 32) (s : GdbServer σ β) : Prop :=
  ∃ s' reply, messageReceived debuggable getRegistersMessage s = .ok () s' ∧ s'.sent = s.sent ++ [reply] ∧
    getRegistersResult reply = .ok (named (file s.debuggable))

/-- The server replies to `get_single_register`, which returns the value of the register. -/
def SingleAgrees (debuggable : Debuggable σ β) (file : σ → Fin 17 → BitVec 32) (s : GdbServer σ β) (i : Fin 17) :
    Prop :=
  ∃ message s' reply, getSingleRegisterMessage (registerName i) = some message ∧
    messageReceived debuggable message s = .ok () s' ∧ s'.sent = s.sent ++ [reply] ∧
    dataToLong reply = .ok (file s.debuggable i).toNat

/-- Client and server agree on all registers at once, and on each of `r0` to `pc`. -/
structure Agrees (debuggable : Debuggable σ β) (file : σ → Fin 17 → BitVec 32) (s : GdbServer σ β) : Prop where
  all : AllAgree debuggable file s
  single : ∀ i : Fin 17, i < 16 → SingleAgrees debuggable file s i

/-! ### The server -/

theorem pack_word (v : BitVec 32) : pack 4 (v.toNat : Int) = .ok (toLE 4 v.toNat) := by
  have hbytes := pack_ofLE (toLE 4 v.toNat)
  rwa [length_toLE, ofLE_toLE_of_lt v.isLt] at hbytes

/-- Reading some of the registers, one after the other -/
theorem mapM_getRegister (h : HoldsRegisters debuggable file) (is : List (Fin 17)) (d : σ) :
    ((is.map registerName).mapM debuggable.getRegister d).1 = is.map fun i => ((file d i).toNat : Int) := by
  induction is generalizing d with
  | nil => rfl
  | cons i is ih =>
    obtain ⟨hvalue, hfile⟩ := h.byName i d
    have hcons : ((i :: is).map registerName).mapM debuggable.getRegister =
        debuggable.getRegister (registerName i) >>= fun value =>
          (is.map registerName).mapM debuggable.getRegister >>= fun values => pure (value :: values) := by
      rw [List.map_cons, List.mapM_cons]
    rw [hcons]
    show (debuggable.getRegister (registerName i) d).1 ::
      ((is.map registerName).mapM debuggable.getRegister (debuggable.getRegister (registerName i) d).2).1 = _
    rw [hvalue, ih, hfile]
    rfl

theorem mapM_pack (R : Fin 17 → BitVec 32) (is : List (Fin 17)) :
    (is.map fun i => ((R i).toNat : Int)).mapM (pack 4) = .ok (is.map fun i => toLE 4 (R i).toNat) := by
  induction is with
  | nil => rfl
  | cons i is ih =>
    rw [List.map_cons, List.mapM_cons, pack_word]
    show (List.mapM (pack 4) (is.map fun i => ((R i).toNat : Int))).bind _ = _
    rw [ih]
    rfl

/-- The server replies to `g` with the encoding of its registers. -/
theorem readRegisters_reply (h : HoldsRegisters debuggable file) (s : GdbServer σ β) : ∃ s',
    messageReceived debuggable getRegistersMessage s = .ok () s' ∧
      s'.sent = s.sent ++ [encode (file s.debuggable)] := by
  have hread : (registers.mapM debuggable.getRegister s.debuggable).1 = _ :=
    mapM_getRegister h (List.finRange 17) s.debuggable
  have hpack := mapM_pack (file s.debuggable) (List.finRange 17)
  have hrun : messageReceived debuggable getRegistersMessage s = readRegisters debuggable s := rfl
  rw [hrun, readRegisters, RegisterAccess.readRegisters]
  simp only [Debuggable.registerAccess_getRegister, debuggee_returning, raises_registerAccess, sendMessage_registerAccess]
  rw [mapM_debuggee, debuggee_bind, hread, bind_ok (raises_ok hpack),
    sendMessage_ok (isAscii_hexBytes _)]
  refine ⟨_, rfl, ?_⟩
  rw [encode, List.ofFn_eq_map]

theorem getSingleRegisterMessage_eq (i : Fin 17) (hi : i < 16) :
    getSingleRegisterMessage (registerName i) = some ('p' :: Numeral.hex2 i) := by
  revert i
  decide

theorem readRegister_run (h : HoldsRegisters debuggable file) (s : GdbServer σ β) (i : Fin 17) (hi : i < 16) : ∃ s',
    messageReceived debuggable ('p' :: Numeral.hex2 i) s = .ok () s' ∧
      s'.sent = s.sent ++ [hexBytes (toLE 4 (file s.debuggable i).toNat)] := by
  have hget := h.byNumber i s.debuggable hi
  have hnumber : int (Numeral.hex2 i) 16 = .ok ((i : Nat) : Int) := by
    rw [int, Numeral.parse_hex2 (by omega)]
  have hrun : messageReceived debuggable ('p' :: Numeral.hex2 i) s = readRegister debuggable (Numeral.hex2 i) s := rfl
  rw [hrun, readRegister, RegisterAccess.readRegister]
  simp only [Debuggable.registerAccess_getRegisterFromNr, debuggee_returning, raises_registerAccess,
    sendMessage_registerAccess]
  rw [bind_ok (raises_ok hnumber), debuggee_bind, hget, bind_ok (raises_ok (pack_word _)),
    sendMessage_ok (isAscii_hexBytes _)]
  exact ⟨_, rfl, rfl⟩

/-! ### The client -/

/-- No reply is accepted: the client subscripts a `map` object. -/
theorem getRegistersResult_error (resp : List Char) :
    getRegistersResult resp = .error (.gdbUnexpectedResponseError resp) := rfl

/-- The number that the first four digits are, as bytes -/
theorem dataToLong_hexBytes (a b c d : Byte) : dataToLong (hexBytes [a, b, c, d]) = .ok ((a.toNat / 16).digitChar.toNat +
    2 ^ 8 * (a.toNat % 16).digitChar.toNat + 2 ^ 16 * (b.toNat / 16).digitChar.toNat +
    2 ^ 24 * (b.toNat % 16).digitChar.toNat) := by
  have hchars : hexBytes [a, b, c, d] = (a.toNat / 16).digitChar :: (a.toNat % 16).digitChar ::
      (b.toNat / 16).digitChar :: (b.toNat % 16).digitChar :: hexBytes [c, d] := by
    simp only [hexBytes, List.flatMap_cons, Numeral.hex2_of_lt a.isLt, Numeral.hex2_of_lt b.isLt]
    rfl
  have hhigh (x : Byte) : (x.toNat / 16).digitChar.toNat < 2 ^ 7 := toNat_digitChar_lt _ (Nat.div_lt_of_lt_mul x.isLt)
  have hlow (x : Byte) : (x.toNat % 16).digitChar.toNat < 2 ^ 7 := toNat_digitChar_lt _ (Nat.mod_lt _ (by decide))
  have ha := hhigh a
  have ha' := hlow a
  have hb := hhigh b
  have htwo : _ ||| (a.toNat % 16).digitChar.toNat <<< 8 = _ :=
    or_shiftLeft (x := (a.toNat / 16).digitChar.toNat) (by omega) _
  have hthree : _ ||| (b.toNat / 16).digitChar.toNat <<< 16 = _ :=
    or_shiftLeft (x := (a.toNat / 16).digitChar.toNat + 2 ^ 8 * (a.toNat % 16).digitChar.toNat) (by omega) _
  rw [hchars]
  show Except.ok _ = _
  rw [htwo, hthree, or_shiftLeft (by omega)]

theorem digitChar_fixed : ∀ d < 16, ∀ e < 16, d.digitChar.toNat = 16 * d + e → d = 3 ∧ e = 3 := by decide

/-- A value comes through if its bytes are the first four of its digits, and then they are all the digit `3`. -/
theorem dataToLong_eq_iff (v : BitVec 32) :
    dataToLong (hexBytes (toLE 4 v.toNat)) = .ok v.toNat ↔ v = 0x33333333 := by
  constructor
  · intro h
    obtain ⟨a, b, c, d, hbytes⟩ : ∃ a b c d : Byte, toLE 4 v.toNat = [a, b, c, d] := ⟨_, _, _, _, rfl⟩
    have hvalue : ofLE (toLE 4 v.toNat) = v.toNat := ofLE_toLE_of_lt v.isLt
    rw [hbytes] at hvalue
    simp only [ofLE] at hvalue
    rw [hbytes, dataToLong_hexBytes, Except.ok.injEq] at h
    have ha := a.isLt
    have hb := b.isLt
    have hdigit (n : Nat) (hn : n < 16) := toNat_digitChar_lt n hn
    have ha₁ := hdigit (a.toNat / 16) (by omega)
    have ha₂ := hdigit (a.toNat % 16) (by omega)
    have hb₁ := hdigit (b.toNat / 16) (by omega)
    have hb₂ := hdigit (b.toNat % 16) (by omega)
    -- The bytes of the number are the first four digits.
    have hfirst : (a.toNat / 16).digitChar.toNat = 16 * (a.toNat / 16) + a.toNat % 16 := by omega
    obtain ⟨ha₃, ha₄⟩ := digitChar_fixed _ (by omega) _ (by omega) hfirst
    have hsecond : (a.toNat % 16).digitChar.toNat = b.toNat := by omega
    have hthree : (3 : Nat).digitChar.toNat = 0x33 := rfl
    rw [ha₄, hthree] at hsecond
    have hb₃ : b.toNat / 16 = 3 := by omega
    have hb₄ : b.toNat % 16 = 3 := by omega
    rw [ha₃, ha₄, hb₃, hb₄, hthree] at h
    exact BitVec.eq_of_toNat_eq h.symm
  · rintro rfl
    rfl

/-! ### Both -/

theorem not_allAgree : ¬AllAgree debuggable file s := by
  rintro ⟨s', reply, -, -, hresult⟩
  rw [getRegistersResult_error] at hresult
  cases hresult

/-- A single register comes through only if it holds the one value. -/
theorem singleAgrees_iff (h : HoldsRegisters debuggable file) (i : Fin 17) (hi : i < 16) :
    SingleAgrees debuggable file s i ↔ file s.debuggable i = 0x33333333 := by
  obtain ⟨s', hrun, hsent⟩ := readRegister_run h s i hi
  rw [← dataToLong_eq_iff]
  constructor
  · rintro ⟨message, s'', reply, hmessage, hrun', hsent', hvalue⟩
    rw [getSingleRegisterMessage_eq i hi, Option.some.injEq] at hmessage
    subst hmessage
    cases hrun.symm.trans hrun'
    have hreply := List.singleton_inj.mp (List.append_cancel_left (hsent.symm.trans hsent'))
    rwa [← hreply] at hvalue
  · intro hvalue
    exact ⟨_, s', _, getSingleRegisterMessage_eq i hi, hrun, hsent, hvalue⟩

/-- Client and server never agree: the server sends the encoding of its registers, and `get_registers` raises. A single
    register is only right if it holds the one value. -/
theorem never_agrees (h : HoldsRegisters debuggable file) (s : GdbServer σ β) :
    (∃ s', messageReceived debuggable getRegistersMessage s = .ok () s' ∧
      s'.sent = s.sent ++ [encode (file s.debuggable)] ∧ getRegistersResult (encode (file s.debuggable)) =
        .error (.gdbUnexpectedResponseError (encode (file s.debuggable)))) ∧
    ¬Agrees debuggable file s ∧
    ∀ i : Fin 17, i < 16 → (SingleAgrees debuggable file s i ↔ file s.debuggable i = 0x33333333) := by
  obtain ⟨s', hrun, hsent⟩ := readRegisters_reply h s
  exact ⟨⟨s', hrun, hsent, getRegistersResult_error _⟩, fun hagrees => not_allAgree hagrees.all,
    fun i hi => singleAgrees_iff h i hi⟩

/-- A debuggable that is only a register file -/
def registerDebuggable : Debuggable (Fin 17 → BitVec 32) Unit where
  readTypedMemory _ _ := pure 0
  readUntypedMemory _ _ := pure []
  writeTypedMemory _ _ _ := pure ()
  writeUntypedMemory _ _ := pure ()
  getRegister register file := ((file (Fin.ofNat 17 (registers.idxOf register))).toNat, file)
  getRegisterFromNr nr file := ((file (Fin.ofNat 17 nr.toNat)).toNat, file)
  setRegister _ _ := pure ()
  setBreakpoint _ := pure ()
  delete _ := pure ()
  cont := pure ()
  stepi := pure ()

theorem registerDebuggable_holds : HoldsRegisters registerDebuggable id where
  byName i file := by
    have hindex : ∀ i : Fin 17, Fin.ofNat 17 (registers.idxOf (registerName i)) = i := by decide
    exact ⟨congrArg (fun j => ((file j).toNat : Int)) (hindex i), rfl⟩
  byNumber i file _ := congrArg (fun j : Fin 17 => ((file j).toNat : Int)) (Fin.ofNat_val_eq_self i)

/-- The registers of a server hold their own numbers. -/
def countingFile : GdbServer (Fin 17 → BitVec 32) Unit := ⟨fun i => BitVec.ofNat 32 i, ∅, []⟩

theorem never_agrees_counting :
    (∃ s', messageReceived registerDebuggable getRegistersMessage countingFile = .ok () s' ∧
      s'.sent = [] ++ [encode countingFile.debuggable] ∧ getRegistersResult (encode countingFile.debuggable) =
        .error (.gdbUnexpectedResponseError (encode countingFile.debuggable))) ∧
    ¬Agrees registerDebuggable id countingFile ∧
    ∀ i : Fin 17, i < 16 → (SingleAgrees registerDebuggable id countingFile i ↔
      countingFile.debuggable i = 0x33333333) :=
  never_agrees registerDebuggable_holds countingFile

theorem not_agrees : ¬∀ s : GdbServer (Fin 17 → BitVec 32) Unit, Agrees registerDebuggable id s := by
  intro h
  exact not_allAgree (h countingFile).all

end RegisterEncodings

end Avatar.GdbServer
