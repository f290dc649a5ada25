import Avatar.Emulators.S2eEmulator
import Avatar.Theorems.GdbMemoryWrite

/-! Writing registers of the emulator through GDB packets. A `G` packet hands tuples to a debugger that formats
    numbers, so it raises at the first register. A `P` packet writes a register under its number, and the debugger only
    knows names: nothing is written. -/

namespace Avatar.GdbServer
open Bytes StateExcept

namespace GdbRegisters
variable {σ β : Type} {gdb : Gdb σ}

/-! ### Opcodes -/

section Rules
variable {ε α : Type} {access : RegisterAccess ε σ} {s : GdbServer σ β}

theorem raises_ok {x : Except PyException α} {a : α} (h : x = .ok a) :
    (access.raises x : EStateM ε (GdbServer σ β) α) s = .ok a s := by
  subst h
  rfl

theorem debuggee_ok {op : EStateM ε σ α} {a : α} {d : σ} (h : op s.debuggable = .ok a d) :
    (RegisterAccess.debuggee op : EStateM ε (GdbServer σ β) α) s = .ok a { s with debuggable := d } := by
  simp only [RegisterAccess.debuggee, h]

theorem debuggee_error {op : EStateM ε σ α} {e : ε} {d : σ} (h : op s.debuggable = .error e d) :
    (RegisterAccess.debuggee op : EStateM ε (GdbServer σ β) α) s = .error e { s with debuggable := d } := by
  simp only [RegisterAccess.debuggee, h]

theorem sendMessage_ok {message : List Char} (h : Ascii.IsAscii message) :
    (access.sendMessage message : EStateM ε (GdbServer σ β) Unit) s =
      .ok () { s with sent := s.sent ++ [message] } := by
  simp only [RegisterAccess.sendMessage, GdbPackets.sendMessage_isAscii h]
  rfl

end Rules

/-! ### A gdb with registers -/

/-- What gdb replies with the value of a register -/
def registerValues (n : Nat) (value : BitVec 32) : MiValue := .tuple [("register-values", .list [.tuple
  [("number", .const (Numeral.dec n)), ("value", .const ('0' :: 'x' :: Numeral.hex value.toNat))]])]

/-- The command that sets what is called by a number -/
def setNumber (n : Nat) (value : BitVec 32) : List (List Char) :=
  ["-gdb-set".toList, '$' :: Numeral.dec n ++ "=0x".toList ++ Numeral.hex value.toNat]

/-- A gdb with a register file: the registers have the positions of their names in a list, in which an empty name
    stands for no register. -/
structure RegisterFile (gdb : Gdb σ) (names : List (List Char)) (file : σ → Nat → BitVec 32) : Prop where
  lists : ∀ process, ∃ process', gdb ["-data-list-register-names".toList] process =
    .ok (some (.tuple [("register-names", .list (names.map .const))])) process' ∧ file process' = file process
  reads : ∀ (n : Nat) (name : List Char) process, names[n]? = some name → name ≠ [] → ∃ process',
    gdb ["-data-list-register-values".toList, "x".toList, Numeral.dec n] process =
      .ok (some (registerValues n (file process n))) process' ∧ file process' = file process
  writes : ∀ (n : Nat) (name : List Char) (value : BitVec 32) process, names[n]? = some name → name ≠ [] →
    ∃ result process', gdb ["-gdb-set".toList, '$' :: name ++ "=0x".toList ++ Numeral.hex value.toNat] process =
      .ok result process' ∧ file process' = Function.update (file process) n value
  /-- A number is the name of no register. Gdb takes it for a variable, or refuses to set it. -/
  numbers : ∀ (n : Nat) (value : BitVec 32) process, file (final (gdb (setNumber n value) process)) = file process

/-- The registers of an ARM core -/
def armNames : List (List Char) := ["r0", "r1", "r2", "r3", "r4", "r5", "r6", "r7", "r8", "r9", "r10", "r11", "r12", "sp",
  "lr", "pc", "f0", "f1", "f2", "f3", "f4", "f5", "f6", "f7", "fps", "cpsr"].map String.toList

/-- What a gdb does with them -/
def armGdb : Gdb (Nat → BitVec 32)
  | [_], file => .ok (some (.tuple [("register-names", .list (armNames.map .const))])) file
  | [_, assignment], file =>
    match (assignment.drop 1).splitOn '=' with
    | [name, digits] =>
      match Numeral.parse 16 digits with
      | some value =>
        .ok none (if name ∈ armNames then Function.update file (armNames.idxOf name) (BitVec.ofInt 32 value) else file)
      | none => .error .miProtocolException file
    | _ => .error .miProtocolException file
  | [_, _, number], file =>
    match Numeral.parse 10 number with
    | some n => .ok (some (registerValues n.toNat (file n.toNat))) file
    | none => .error .miProtocolException file
  | _, file => .error .miProtocolException file

theorem armGdb_set {name : List Char} (hname : '=' ∉ name) (value : BitVec 32) (file : Nat → BitVec 32) :
    armGdb ["-gdb-set".toList, '$' :: name ++ "=0x".toList ++ Numeral.hex value.toNat] file =
      .ok none (if name ∈ armNames then Function.update file (armNames.idxOf name) value else file) := by
  have hdigits : '=' ∉ '0' :: 'x' :: Numeral.hex value.toNat := by
    simp [Numeral.notMem_hex, Numeral.digitValue]
  have hsplit : (('$' :: name ++ "=0x".toList ++ Numeral.hex value.toNat).drop 1).splitOn '=' =
      [name, '0' :: 'x' :: Numeral.hex value.toNat] := by
    show ((name ++ ['=', '0', 'x']) ++ Numeral.hex value.toNat).splitOn '=' = _
    rw [List.append_assoc]
    show (name ++ '=' :: '0' :: 'x' :: Numeral.hex value.toNat).splitOn '=' = _
    rw [List.splitOn_append_cons_self_of_not_mem hname, List.splitOn_eq_singleton hdigits]
  simp only [armGdb, hsplit, Numeral.parse_prefixed_hex, BitVec.ofInt_natCast, BitVec.ofNat_toNat, BitVec.setWidth_eq]

/-- A number is no name. -/
theorem dec_notMem_armNames (n : Nat) : Numeral.dec n ∉ armNames := by
  intro hmem
  have hletter : ∀ name ∈ armNames, name.all Char.isDigit = false := by decide
  obtain ⟨d, hd, hdigit⟩ := List.all_eq_false.mp (hletter _ hmem)
  obtain ⟨k, hk, rfl⟩ := Numeral.mem_toDigits (by decide) hd
  have hdigits : ∀ k < 10, k.digitChar.isDigit = true := by decide
  exact hdigit (hdigits k hk)

theorem armGdb_registerFile : RegisterFile armGdb armNames id where
  lists process := ⟨process, rfl, rfl⟩
  reads n name process _ _ := by
    refine ⟨process, ?_, rfl⟩
    simp only [armGdb, Numeral.parse_dec, Int.toNat_natCast, id]
  writes n name value process hn _ := by
    obtain ⟨hlt, hn⟩ := List.getElem?_eq_some_iff.mp hn
    have hmem : name ∈ armNames := hn ▸ List.getElem_mem hlt
    have hequals : ∀ name ∈ armNames, '=' ∉ name := by decide
    have hnodup : armNames.Nodup := by decide
    have hindex : armNames.idxOf name = n := by
      rw [← hn, hnodup.idxOf_getElem n hlt]
    exact ⟨none, _, armGdb_set (hequals name hmem) value process, by rw [if_pos hmem, hindex]; rfl⟩
  numbers n value process := by
    have hequals : '=' ∉ Numeral.dec n := Numeral.notMem_toDigits (by decide) (by decide) rfl n
    rw [setNumber, armGdb_set hequals, if_neg (dec_notMem_armNames n)]
    rfl

/-- A server over registers that are zero -/
def zeroRegisters : GdbServer (GdbDebugger (Nat → BitVec 32)) Unit := ⟨⟨fun _ => 0, none⟩, ∅, []⟩

/-! ### All registers -/

/-- The `g` encoding of a register file -/
def encode (R : Fin 17 → BitVec 32) : List Char := hexBytes (List.ofFn fun i => toLE 4 (R i).toNat).flatten

/-- `struct.unpack` of four of the numbers -/
def unpackGroup (x : List Int) : Except PyException RegisterValue := do
  let data ← toBytes x
  .ok (RegisterValue.tuple [ofLE data])

/-- The values that `G` makes of the digits of bytes -/
theorem mapM_groups : ∀ data : List Byte, (groups₄ (data.map fun b => (b.toNat : Int))).mapM unpackGroup =
    .ok ((groups₄ data).map fun group => RegisterValue.tuple [ofLE group])
  | a :: b :: c :: d :: rest => by
    have hgroup : unpackGroup ([a, b, c, d].map fun b => (b.toNat : Int)) = .ok (.tuple [ofLE [a, b, c, d]]) := by
      rw [unpackGroup, toBytes_toNat]
      rfl
    show (List.mapM unpackGroup (([a, b, c, d].map fun b => (b.toNat : Int)) ::
      groups₄ (rest.map fun b => (b.toNat : Int)))) = _
    rw [List.mapM_cons, hgroup]
    show ((groups₄ (rest.map fun b => (b.toNat : Int))).mapM unpackGroup).bind _ = _
    rw [mapM_groups rest]
    rfl
  | [] | [_] | [_, _] | [_, _, _] => rfl

/-- The first register gets a tuple, and the debugger raises before it sends a command. -/
theorem writeRegisters_error (gdb : Gdb σ) (R : Fin 17 → BitVec 32) (s : GdbServer (GdbDebugger σ) β) :
    (S2EEmulator.registerAccess gdb).writeRegisters (encode R) s = .error (.python .typeError) s := by
  have hgroups : ∃ value values, (groups₄ (List.ofFn fun i => toLE 4 (R i).toNat).flatten).map
      (fun group => RegisterValue.tuple [ofLE group]) = .tuple value :: values := by
    rw [List.ofFn_succ, List.flatten_cons]
    exact ⟨_, _, rfl⟩
  obtain ⟨value, values, hgroups⟩ := hgroups
  have hdigits : hexPairs (encode R) = .ok ((List.ofFn fun i => toLE 4 (R i).toNat).flatten.map
    fun b => (b.toNat : Int)) := hexPairs_hexBytes _
  have hvalues := mapM_groups (List.ofFn fun i => toLE 4 (R i).toNat).flatten
  rw [hgroups] at hvalues
  have hset : (S2EEmulator.registerAccess gdb).setRegister (.str "r0") (.tuple value) s.debuggable =
      .error (.python .typeError) s.debuggable := rfl
  rw [RegisterAccess.writeRegisters, bind_ok (raises_ok hdigits)]
  exact (bind_ok (raises_ok hvalues)).trans (bind_error (bind_error (debuggee_error hset)))

/-- Every register of the emulator has its value in `R`. -/
def Holds (gdb : Gdb σ) (R : Fin 17 → BitVec 32) (d : GdbDebugger σ) : Prop :=
  ∀ i : Fin 17, Returns (S2EEmulator.getRegister gdb (registers.get i)) d fun value _ => value = (R i).toNat

/-- `G` with the encoding of `R` is handled, the emulator then holds `R`, and `g` replies with the same encoding. -/
def Inverse (gdb : Gdb σ) (R : Fin 17 → BitVec 32) (s : GdbServer (GdbDebugger σ) β) : Prop :=
  Returns ((S2EEmulator.registerAccess gdb).writeRegisters (encode R)) s fun _ s' =>
    Holds gdb R s'.debuggable ∧
    Returns (S2EEmulator.registerAccess gdb).readRegisters s' fun _ s'' => s''.sent = s'.sent ++ [encode R]

theorem Inverse.elim {gdb : Gdb σ} {R : Fin 17 → BitVec 32} {s : GdbServer (GdbDebugger σ) β}
    (h : Inverse gdb R s) : False := by
  obtain ⟨⟨⟩, s', hwrite, -⟩ := h
  rw [writeRegisters_error] at hwrite
  cases hwrite

/-- Whatever the gdb does, and whatever the registers hold: `G` raises, and neither writes nor replies. -/
theorem never_inverse (gdb : Gdb σ) (R : Fin 17 → BitVec 32) (s : GdbServer (GdbDebugger σ) β) :
    (S2EEmulator.registerAccess gdb).writeRegisters (encode R) s = .error (.python .typeError) s ∧
    ¬Inverse gdb R s := by
  exact ⟨writeRegisters_error gdb R s, Inverse.elim⟩

/-- Registers that are zero stay zero, and the reply is none. -/
theorem not_inverse :
    ¬∀ (R : Fin 17 → BitVec 32) (s : GdbServer (GdbDebugger (Nat → BitVec 32)) Unit), Inverse armGdb R s := by
  intro h
  exact (h (fun _ => 0) zeroRegisters).elim

/-! ### One register -/

/-- `P` writes the bytes of `v` to the register `n`, no other register changes, and `p` then replies with them. -/
def WritesRead (gdb : Gdb σ) (file : σ → Nat → BitVec 32) (n : Nat) (v : BitVec 32)
    (s : GdbServer (GdbDebugger σ) β) : Prop :=
  Returns ((S2EEmulator.registerAccess gdb).writeRegister (Numeral.hex n ++ '=' :: hexBytes (toLE 4 v.toNat))) s
    fun _ s' => (∀ m ≠ n, file s'.debuggable.gdb m = file s.debuggable.gdb m) ∧
      Returns ((S2EEmulator.registerAccess gdb).readRegister (Numeral.hex n)) s' fun _ s'' =>
        s''.sent = s'.sent ++ [hexBytes (toLE 4 v.toNat)]

/-! #### The digits of a value -/

/-- The digits of bytes, as one number, have the lowest byte last. -/
theorem digits_hexBytes (data : List Byte) (v : Nat) :
    Numeral.digits 16 v (hexBytes data) = some (v * 256 ^ data.length + ofLE data.reverse) := by
  induction data generalizing v with
  | nil =>
    rw [List.length_nil, pow_zero, Nat.mul_one]
    rfl
  | cons b data ih =>
    have hlt : b.toNat < 256 := b.isLt
    have hhigh : b.toNat / 16 < 16 := Nat.div_lt_of_lt_mul hlt
    have hlow : b.toNat % 16 < 16 := Nat.mod_lt _ (by decide)
    have hbyte : (v * 16 + b.toNat / 16) * 16 + b.toNat % 16 = v * 256 + b.toNat := by omega
    rw [hexBytes, List.flatMap_cons, Numeral.hex2_of_lt hlt, List.cons_append, List.singleton_append,
      Numeral.digits_cons (Numeral.digitChar_ne hhigh rfl), Numeral.digit_digitChar (Nat.le_refl _) hhigh,
      Option.bind_some, Numeral.digits_cons (Numeral.digitChar_ne hlow rfl),
      Numeral.digit_digitChar (Nat.le_refl _) hlow, Option.bind_some, hbyte]
    show Numeral.digits 16 _ (hexBytes data) = _
    rw [ih, List.reverse_cons, ofLE_append, List.length_reverse, List.length_cons]
    congr 1
    rw [ofLE, ofLE]
    ring

theorem parse_hexBytes {data : List Byte} (hne : data ≠ []) :
    Numeral.parse 16 (hexBytes data) = some (ofLE data.reverse : Int) := by
  have hspace : ∀ c ∈ hexBytes data, Numeral.isSpace c = false := fun c hc =>
    Numeral.isSpace_eq_false (Option.isSome_iff_ne_none.mpr fun hnone => notMem_hexBytes hnone data hc)
  have hnot {c : Char} (hc : Numeral.digitValue c = none) : c ∉ hexBytes data := notMem_hexBytes hc data
  have hdigits : Numeral.unprefixed 16 (hexBytes data) = Numeral.digits 16 0 (hexBytes data) := by
    obtain ⟨c, rest, hcons⟩ := List.exists_cons_of_ne_nil (l := hexBytes data) fun hnil => hne (by
      have hlen := length_hexBytes data
      rw [hnil, List.length_nil] at hlen
      exact List.length_eq_zero_iff.mp (by omega))
    have hc : c ≠ '_' := by
      rintro rfl
      have hmem : '_' ∈ hexBytes data := by
        rw [hcons]
        exact .head _
      exact hnot rfl hmem
    rw [hcons, Numeral.digits_cons hc, Numeral.unprefixed]
    simp only [Nat.zero_mul, Nat.zero_add]
  rw [Numeral.parse_of_unsigned hspace (hnot rfl) (hnot rfl), Numeral.unsigned_of_notMem (hnot rfl) (hnot rfl),
    hdigits, digits_hexBytes, Nat.zero_mul, Nat.zero_add]
  rfl

theorem hexBytes_injective {a b : List Byte} (h : hexBytes a = hexBytes b) : a = b := by
  have hpairs : Except.ok (a.map fun x => (x.toNat : Int)) = hexPairs (hexBytes b) := by
    rw [← h, hexPairs_hexBytes]
  rw [hexPairs_hexBytes] at hpairs
  refine List.map_injective_iff.mpr (fun x y hxy => ?_) (Except.ok.inj hpairs)
  exact BitVec.eq_of_toNat_eq (Int.ofNat.inj hxy)

/-- The arguments of `P`, as the server splits them. -/
theorem intField_register (n : Nat) (data : List Byte) :
    intField (Numeral.hex n ++ '=' :: hexBytes data) '=' 0 16 = .ok (n : Int) ∧
    (data ≠ [] → intField (Numeral.hex n ++ '=' :: hexBytes data) '=' 1 16 = .ok (ofLE data.reverse : Int)) := by
  have hsplit : (Numeral.hex n ++ '=' :: hexBytes data).splitOn '=' = [Numeral.hex n, hexBytes data] := by
    rw [List.splitOn_append_cons_self_of_not_mem (Numeral.notMem_hex rfl _),
      List.splitOn_eq_singleton (notMem_hexBytes rfl data)]
  constructor
  · rw [intField, field, hsplit]
    show int (Numeral.hex n) 16 = _
    rw [int, Numeral.parse_hex]
  · intro hne
    rw [intField, field, hsplit]
    show int (hexBytes data) 16 = _
    rw [int, parse_hexBytes hne]

/-! #### The packets -/

section Packets
variable {names : List (List Char)} {file : σ → Nat → BitVec 32} {n : Nat} {name : List Char} {v : BitVec 32}
  {s : GdbServer (GdbDebugger σ) β}

/-- The debugger sets what is called by the number. -/
theorem syncCmd_setNumber (gdb : Gdb σ) (n : Nat) (v : BitVec 32) (d : GdbDebugger σ) :
    (S2EEmulator.registerAccess gdb).setRegister (.int n) (.int v.toNat) d =
      (GdbDebugger.syncCmd gdb (setNumber n v) >>= fun _ => pure ()) d := bind_ok (lift_ok rfl d)

/-- The packet comes to the command of the debugger. -/
theorem writeRegister_eq (gdb : Gdb σ) (n : Nat) (v : BitVec 32) (s : GdbServer (GdbDebugger σ) β) :
    (S2EEmulator.registerAccess gdb).writeRegister (Numeral.hex n ++ '=' :: hexBytes (toLE 4 v.toNat)) s =
      (RegisterAccess.debuggee ((S2EEmulator.registerAccess gdb).setRegister (.int n) (.int v.toNat)) >>= fun _ =>
        (S2EEmulator.registerAccess gdb).sendMessage "OK".toList) s := by
  obtain ⟨hnumber, hdigits⟩ := intField_register n (toLE 4 v.toNat)
  have hpack : pack 4 (ofLE (toLE 4 v.toNat).reverse) = .ok (toLE 4 v.toNat).reverse := by
    have hbytes := pack_ofLE (toLE 4 v.toNat).reverse
    rwa [List.length_reverse, length_toLE] at hbytes
  have hvalue : ofLE (toLE 4 v.toNat).reverse.reverse = v.toNat := by
    rw [List.reverse_reverse, ofLE_toLE_of_lt v.isLt]
  rw [RegisterAccess.writeRegister, bind_ok (raises_ok hnumber), bind_ok (raises_ok (hdigits (List.cons_ne_nil _ _))),
    bind_ok (raises_ok hpack), hvalue]

/-- `P` returns if gdb accepts the command, and leaves every register as it was. -/
theorem writeRegister_ok (h : RegisterFile gdb names file) {result : Option MiValue} {process : σ}
    (haccepts : gdb (setNumber n v) s.debuggable.gdb = .ok result process) : ∃ s',
      (S2EEmulator.registerAccess gdb).writeRegister (Numeral.hex n ++ '=' :: hexBytes (toLE 4 v.toNat)) s =
        .ok () s' ∧ file s'.debuggable.gdb = file s.debuggable.gdb := by
  have hfile := h.numbers n v s.debuggable.gdb
  rw [haccepts] at hfile
  have hset : (S2EEmulator.registerAccess gdb).setRegister (.int n) (.int v.toNat) s.debuggable =
      .ok () { s.debuggable with gdb := process } := by
    rw [syncCmd_setNumber, bind_ok (show GdbDebugger.syncCmd gdb (setNumber n v) s.debuggable = _ by
      rw [GdbDebugger.syncCmd, haccepts])]
    rfl
  rw [writeRegister_eq, bind_ok (debuggee_ok hset), sendMessage_ok (by decide)]
  exact ⟨_, rfl, hfile⟩

/-- `P` raises what gdb does. -/
theorem writeRegister_error {e : DebuggerError} {process : σ}
    (hrefuses : gdb (setNumber n v) s.debuggable.gdb = .error e process) : ∃ s',
      (S2EEmulator.registerAccess gdb).writeRegister (Numeral.hex n ++ '=' :: hexBytes (toLE 4 v.toNat)) s =
        .error e s' := by
  have hset : (S2EEmulator.registerAccess gdb).setRegister (.int n) (.int v.toNat) s.debuggable =
      .error e { s.debuggable with gdb := process } := by
    rw [syncCmd_setNumber]
    exact bind_error (by rw [GdbDebugger.syncCmd, hrefuses])
  rw [writeRegister_eq]
  exact ⟨_, bind_error (debuggee_error hset)⟩

/-- The debugger reads the hexadecimal numeral that gdb replies with. -/
theorem getRegisterFromNr_file (h : RegisterFile gdb names file) (hn : names[n]? = some name) (hname : name ≠ [])
    (d : GdbDebugger σ) : ∃ process, (S2EEmulator.registerAccess gdb).getRegisterFromNr n d =
      .ok ((file d.gdb n).toNat : Int) { d with gdb := process } := by
  obtain ⟨process, hreads, -⟩ := h.reads n name d.gdb hn hname
  refine ⟨process, tryCatch_ok ?_⟩
  have hsync : GdbDebugger.syncCmd gdb ["-data-list-register-values".toList, "x".toList, Numeral.decInt n] d =
      .ok (some (registerValues n (file d.gdb n))) { d with gdb := process } := by
    show GdbDebugger.syncCmd gdb ["-data-list-register-values".toList, "x".toList, Numeral.dec n] d = _
    rw [GdbDebugger.syncCmd, hreads]
  have hvalue : (MiValue.const ('0' :: 'x' :: Numeral.hex (file d.gdb n).toNat)).hexadecimal =
      .ok ((file d.gdb n).toNat : Int) := by
    rw [MiValue.hexadecimal, int, Numeral.parse_prefixed_hex]
  rw [bind_ok hsync]
  refine lift_ok ?_ _
  show (MiValue.hexadecimal (.const ('0' :: 'x' :: Numeral.hex (file d.gdb n).toNat))).mapError _ = _
  rw [hvalue]
  rfl

/-- `p` replies with the bytes of the register. -/
theorem readRegister_reply (h : RegisterFile gdb names file) (hn : names[n]? = some name) (hname : name ≠ [])
    (s : GdbServer (GdbDebugger σ) β) : ∃ s',
      (S2EEmulator.registerAccess gdb).readRegister (Numeral.hex n) s = .ok () s' ∧
      s'.sent = s.sent ++ [hexBytes (toLE 4 (file s.debuggable.gdb n).toNat)] := by
  obtain ⟨process, hget⟩ := getRegisterFromNr_file h hn hname s.debuggable
  have hnumber : int (Numeral.hex n) 16 = .ok (n : Int) := by
    rw [int, Numeral.parse_hex]
  have hpack : pack 4 ((file s.debuggable.gdb n).toNat : Int) = .ok (toLE 4 (file s.debuggable.gdb n).toNat) := by
    have hbytes := pack_ofLE (toLE 4 (file s.debuggable.gdb n).toNat)
    rwa [length_toLE, ofLE_toLE_of_lt (file s.debuggable.gdb n).isLt] at hbytes
  rw [RegisterAccess.readRegister, bind_ok (raises_ok hnumber), bind_ok (debuggee_ok hget),
    bind_ok (raises_ok hpack), sendMessage_ok (isAscii_hexBytes _)]
  exact ⟨_, rfl, rfl⟩

/-- The reply shows what the register has held before. -/
theorem WritesRead.eq (h : RegisterFile gdb names file) (hn : names[n]? = some name) (hname : name ≠ [])
    (hwrites : WritesRead gdb file n v s) :
    (∃ result process, gdb (setNumber n v) s.debuggable.gdb = .ok result process) ∧ file s.debuggable.gdb n = v := by
  obtain ⟨⟨⟩, s', hwrite, -, ⟨⟩, s'', hread, hreply⟩ := hwrites
  cases hgdb : gdb (setNumber n v) s.debuggable.gdb with
  | error e process =>
    obtain ⟨t, hraises⟩ := writeRegister_error hgdb
    cases hwrite.symm.trans hraises
  | ok result process =>
    refine ⟨⟨result, process, rfl⟩, ?_⟩
    obtain ⟨t, hwrite', hfile⟩ := writeRegister_ok h hgdb
    obtain rfl : s' = t := by
      rw [hwrite] at hwrite'
      cases hwrite'
      rfl
    obtain ⟨t, hread', hsent⟩ := readRegister_reply h hn hname s'
    obtain rfl : s'' = t := by
      rw [hread] at hread'
      cases hread'
      rfl
    rw [hsent, hfile] at hreply
    have hbytes := hexBytes_injective (List.cons.inj (List.append_cancel_left hreply)).1
    have hvalue := congrArg ofLE hbytes
    rw [ofLE_toLE_of_lt (file s.debuggable.gdb n).isLt, ofLE_toLE_of_lt v.isLt] at hvalue
    exact BitVec.eq_of_toNat_eq hvalue

/-- So `P` does what it should where gdb accepts the number for a variable, and the register holds the value before. -/
theorem writesRead_iff (h : RegisterFile gdb names file) (hn : names[n]? = some name) (hname : name ≠ []) :
    WritesRead gdb file n v s ↔
      (∃ result process, gdb (setNumber n v) s.debuggable.gdb = .ok result process) ∧ file s.debuggable.gdb n = v := by
  refine ⟨WritesRead.eq h hn hname, ?_⟩
  rintro ⟨⟨result, process, haccepts⟩, rfl⟩
  obtain ⟨s', hwrite, hfile⟩ := writeRegister_ok h haccepts
  obtain ⟨s'', hread, hsent⟩ := readRegister_reply h hn hname s'
  rw [hfile] at hsent
  exact ⟨(), s', hwrite, fun m _ => congrFun hfile m, (), s'', hread, hsent⟩

end Packets

theorem writesRead_iff_pc : WritesRead armGdb id 15 0x8000#32 zeroRegisters ↔
    (∃ result process, armGdb (setNumber 15 0x8000#32) (fun _ => 0) = .ok result process) ∧
      (0 : BitVec 32) = 0x8000#32 :=
  writesRead_iff armGdb_registerFile (show armNames[15]? = some "pc".toList from rfl) (by decide)

/-- The program counter stays zero. -/
theorem not_writesRead : ¬∀ (n : Nat) (name : List Char) (v : BitVec 32)
    (s : GdbServer (GdbDebugger (Nat → BitVec 32)) Unit), armNames[n]? = some name → name ≠ [] →
    WritesRead armGdb id n v s := by
  intro h
  have hwrites := h 15 "pc".toList 0x8000#32 zeroRegisters rfl (by decide)
  have hzero : (0 : BitVec 32) = 0x8000#32 := (hwrites.eq armGdb_registerFile rfl (by decide)).2
  cases hzero

end GdbRegisters

end Avatar.GdbServer
