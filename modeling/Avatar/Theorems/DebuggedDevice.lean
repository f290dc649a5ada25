import Avatar.Targets.GdbserverTarget
import Avatar.Theorems.GdbRegisters
import Avatar.Theorems.TypedAccess

/-! A device with a memory and registers behind a gdb, and what the methods of the target do to it. -/

namespace Avatar
open Bytes StateExcept

namespace GdbserverTarget
open TypedAccess (AccessSize)
open GdbServer.GdbRegisters (registerValues armGdb armNames armGdb_registerFile)

variable {σ : Type}

/-- The registers have the positions of their names in the list of the debugger. -/
structure TargetState where
  memory : WordMemory 32
  registers : Nat → BitVec 32

/-- The C type of a size, on a core of 32 bits -/
def typeName : AccessSize → List Char
  | .byte => "char".toList
  | .half => "short".toList
  | .word => "long".toList

/-- The registers that the emulator asks for -/
def coreNames : List (List Char) := EmulatorTargetCallProxy.cpuStateRegisters.map (·.1.toList)

/-- What a gdb does with a device. An empty name stands for no register, and `words` are the registers of 32 bits. -/
structure Debugs (gdb running : Gdb σ) (names words : List (List Char)) (device : σ → TargetState)
    (checksum : TargetState → Nat → Nat → Nat) : Prop where
  bounded : names.length ≤ 10000
  distinct : (names.filter (· ≠ [])).Nodup
  listed : ∀ name ∈ words, name ∈ names ∧ name ≠ []
  core : ∀ name ∈ coreNames, name ∈ words
  lists : ∀ process, ∃ process', gdb ["-data-list-register-names".toList] process =
    .ok (some (.tuple [("register-names", .list (names.map .const))])) process' ∧ device process' = device process
  readsRegister : ∀ (n : Nat) (name : List Char) process, names[n]? = some name → name ∈ words → ∃ process',
    gdb ["-data-list-register-values".toList, "x".toList, Numeral.dec n] process =
      .ok (some (registerValues n ((device process).registers n))) process' ∧ device process' = device process
  writesRegister : ∀ (n : Nat) (name : List Char) (value : BitVec 32) process, names[n]? = some name → name ∈ words →
    ∃ result process', gdb ["-gdb-set".toList, '$' :: name ++ "=0x".toList ++ Numeral.hex value.toNat] process =
      .ok result process' ∧
    device process' = { device process with registers := Function.update (device process).registers n value }
  readsMemory : ∀ (address : BitVec 32) (size : AccessSize) process, address.toNat + size.bytes ≤ 2 ^ 32 →
    ∃ reply row digits process',
    gdb ["-data-read-memory".toList, "0x".toList ++ Numeral.hex address.toNat, "x".toList, Numeral.dec size.bytes,
      "1".toList, "1".toList] process = .ok (some (.tuple reply)) process' ∧
    reply.lookup "memory" = some (.list [.tuple row]) ∧ row.lookup "data" = some (.list [.const digits]) ∧
    Numeral.parse 16 digits = some (ofLE ((device process).memory.load address size.bytes) : Int) ∧
    device process' = device process
  writesMemory : ∀ (address : BitVec 32) (size : AccessSize) (value : BitVec (8 * size.bytes)) process,
    address.toNat + size.bytes ≤ 2 ^ 32 → ∃ result process',
    gdb ["-gdb-set".toList, "*((".toList ++ typeName size ++ " *) 0x".toList ++ Numeral.hex address.toNat ++ ")=0x".toList ++
      Numeral.hex value.toNat] process = .ok result process' ∧
    device process' =
      { device process with memory := (device process).memory.store address (toLE size.bytes value.toNat) }
  checksums : ∀ (address size : Nat) process, address + size ≤ 2 ^ 32 → ∃ reply process',
    gdb ["-gdb-show".toList, "remote".toList, "checksum".toList, Numeral.hex address, Numeral.hex size] process =
      .ok (some (.tuple reply)) process' ∧
    reply.lookup "value" = some (.const (Numeral.dec (checksum (device process) address size))) ∧
    device process' = device process
  /-- The device goes on, and does whatever it does. -/
  continues : ∀ process, ∃ result process', running ["-exec-continue".toList] process = .ok result process'

/-! ### A gdb -/

/-- The sum of the bytes -/
def byteSum (dev : TargetState) (address size : Nat) : Nat :=
  ((dev.memory.load (BitVec.ofNat 32 address) size).map BitVec.toNat).sum

def sizeNamed (name : List Char) : Option AccessSize := [.byte, .half, .word].find? (typeName · = name)

/-- Writes to the memory that an expression names. The star in front of it is left out. -/
def assignMemory (expression : List Char) (dev : TargetState) : Option TargetState :=
  match expression.splitOn ' ' with
  | [cast, _, operands] =>
    match operands.splitOn ')' with
    | [address, assigned] => do
      let size ← sizeNamed (cast.drop 2)
      let address ← Numeral.parse 16 address
      let value ← Numeral.parse 16 (assigned.drop 1)
      return { dev with memory := dev.memory.store (BitVec.ofInt 32 address) (toLE size.bytes value.toNat) }
    | _ => none
  | _ => none

def onRegisters (command : List (List Char)) : EStateM DebuggerError TargetState (Option MiValue) := fun dev =>
  match armGdb command dev.registers with
  | .ok result registers => .ok result { dev with registers }
  | .error e registers => .error e { dev with registers }

/-- What a gdb does with an ARM core and its memory -/
def deviceGdb : Gdb TargetState
  | [_, '*' :: expression], dev =>
    match assignMemory expression dev with
    | some dev' => .ok none dev'
    | none => .error .miProtocolException dev
  | [_, _, _, address, size], dev =>
    match Numeral.parse 16 address, Numeral.parse 16 size with
    | some address, some size =>
      .ok (some (.tuple [("value", .const (Numeral.dec (byteSum dev address.toNat size.toNat)))])) dev
    | _, _ => .error .miProtocolException dev
  | [_, address, _, size, _, _], dev =>
    match Numeral.parse 16 address, Numeral.parse 10 size with
    | some address, some size =>
      let value := ofLE (dev.memory.load (BitVec.ofInt 32 address) size.toNat)
      .ok (some (.tuple [("memory", .list [.tuple [("data", .list [.const (Numeral.hex value)])]])])) dev
    | _, _ => .error .miProtocolException dev
  | command, dev => onRegisters command dev

theorem onRegisters_ok {command : List (List Char)} {dev : TargetState} {result : Option MiValue}
    {registers : Nat → BitVec 32} (h : armGdb command dev.registers = .ok result registers) :
    onRegisters command dev = .ok result { dev with registers } := by
  rw [onRegisters, h]

theorem assignMemory_expression (address : BitVec 32) (size : AccessSize) (value : BitVec (8 * size.bytes))
    (dev : TargetState) :
    assignMemory ("((".toList ++ typeName size ++ " *) 0x".toList ++ Numeral.hex address.toNat ++ ")=0x".toList ++
        Numeral.hex value.toNat) dev =
      some { dev with memory := dev.memory.store address (toLE size.bytes value.toNat) } := by
  have haddress : ')' ∉ '0' :: 'x' :: Numeral.hex address.toNat := by
    simp [Numeral.notMem_hex, Numeral.digitValue]
  have hvalue : ')' ∉ '=' :: '0' :: 'x' :: Numeral.hex value.toNat := by
    simp [Numeral.notMem_hex, Numeral.digitValue]
  have hoperands : ' ' ∉ ('0' :: 'x' :: Numeral.hex address.toNat) ++ ')' :: '=' :: '0' :: 'x' :: Numeral.hex value.toNat := by
    simp [Numeral.notMem_hex, Numeral.digitValue]
  have hcast : ' ' ∉ "((".toList ++ typeName size := by cases size <;> decide
  have hsize : sizeNamed (("((".toList ++ typeName size).drop 2) = some size := by cases size <;> decide
  have hexpression : "((".toList ++ typeName size ++ " *) 0x".toList ++ Numeral.hex address.toNat ++ ")=0x".toList ++
      Numeral.hex value.toNat = ("((".toList ++ typeName size) ++ ' ' :: ("*)".toList ++ ' ' ::
        (('0' :: 'x' :: Numeral.hex address.toNat) ++ ')' :: '=' :: '0' :: 'x' :: Numeral.hex value.toNat)) := by
    simp
  have hwords : ("((".toList ++ typeName size ++ " *) 0x".toList ++ Numeral.hex address.toNat ++ ")=0x".toList ++
      Numeral.hex value.toNat).splitOn ' ' = ["((".toList ++ typeName size, "*)".toList,
        ('0' :: 'x' :: Numeral.hex address.toNat) ++ ')' :: '=' :: '0' :: 'x' :: Numeral.hex value.toNat] := by
    rw [hexpression, List.splitOn_append_cons_self_of_not_mem hcast,
      List.splitOn_append_cons_self_of_not_mem (by decide), List.splitOn_eq_singleton hoperands]
  have hparts : (('0' :: 'x' :: Numeral.hex address.toNat) ++ ')' :: '=' :: '0' :: 'x' ::
      Numeral.hex value.toNat).splitOn ')' =
        ['0' :: 'x' :: Numeral.hex address.toNat, '=' :: '0' :: 'x' :: Numeral.hex value.toNat] := by
    rw [List.splitOn_append_cons_self_of_not_mem haddress, List.splitOn_eq_singleton hvalue]
  simp only [assignMemory, hwords, hparts, hsize, Numeral.parse_prefixed_hex, List.drop_succ_cons, List.drop_zero,
    Option.bind_eq_bind, Option.bind_some, BitVec.ofInt_natCast, BitVec.ofNat_toNat, BitVec.setWidth_eq, Int.toNat_natCast,
    pure]

theorem deviceGdb_debugs : Debugs deviceGdb deviceGdb armNames coreNames id byteSum where
  bounded := by decide
  distinct := by decide
  listed := by decide
  core _ h := h
  lists process := ⟨process, rfl, rfl⟩
  readsRegister n name process hn hname := by
    have hne : name ≠ [] := by
      rintro rfl
      exact absurd hname (by decide)
    obtain ⟨registers, hgdb, hregisters⟩ := armGdb_registerFile.reads n name process.registers hn hne
    exact ⟨_, onRegisters_ok hgdb, congrArg (TargetState.mk process.memory) hregisters⟩
  writesRegister n name value process hn hname := by
    have hne : name ≠ [] := by
      rintro rfl
      exact absurd hname (by decide)
    obtain ⟨result, registers, hgdb, hregisters⟩ := armGdb_registerFile.writes n name value process.registers hn hne
    exact ⟨result, _, onRegisters_ok hgdb, congrArg (TargetState.mk process.memory) hregisters⟩
  readsMemory address size process _ := by
    refine ⟨[("memory", _)], [("data", _)], Numeral.hex (ofLE (process.memory.load address size.bytes)), process, ?_, rfl,
      rfl, Numeral.parse_hex _, rfl⟩
    have haddress : Numeral.parse 16 ("0x".toList ++ Numeral.hex address.toNat) = some (address.toNat : Int) :=
      Numeral.parse_prefixed_hex _
    simp only [deviceGdb, haddress, Numeral.parse_dec, BitVec.ofInt_natCast, BitVec.ofNat_toNat, BitVec.setWidth_eq,
      Int.toNat_natCast]
  writesMemory address size value process _ := by
    have hcommand : "*((".toList ++ typeName size ++ " *) 0x".toList ++ Numeral.hex address.toNat ++ ")=0x".toList ++
        Numeral.hex value.toNat = '*' :: ("((".toList ++ typeName size ++ " *) 0x".toList ++ Numeral.hex address.toNat ++
          ")=0x".toList ++ Numeral.hex value.toNat) := by simp
    rw [hcommand]
    refine ⟨none, _, ?_, rfl⟩
    simp only [deviceGdb, assignMemory_expression]
    rfl
  checksums address size process _ := by
    refine ⟨[("value", _)], process, ?_, rfl, rfl⟩
    simp only [deviceGdb, Numeral.parse_hex, Int.toNat_natCast]
    rfl
  continues process := ⟨_, process, rfl⟩

/-! ### The names of the registers -/

/-- The dictionary of the names -/
def nameTable (names : List (List Char)) : List (List Char × Nat) := (names.zipIdx.filter (·.1 ≠ [])).reverse

/-- The names have not been fetched, or are those of gdb. -/
def Cached (names : List (List Char)) (cache : Option (List (List Char × Nat))) : Prop :=
  cache = none ∨ cache = some (nameTable names)

section Names
variable {names : List (List Char)} {name : List Char} {n : Nat}

theorem registerNames_eq (h : names.length ≤ 10000) :
    GdbDebugger.registerNames (.list (names.map .const)) = .ok (nameTable names) := by
  have hnames : ∀ l : List (List Char × Nat),
      (l.map fun x => (MiValue.const x.1, x.2)).mapM GdbDebugger.registerName = .ok l := by
    intro l
    induction l with
    | nil => rfl
    | cons x l ih =>
      rw [List.map_cons, List.mapM_cons, ih]
      rfl
  rw [GdbDebugger.registerNames, MiValue.elements, List.take_of_length_le (by rwa [List.length_map]), List.zipIdx_map]
  show (List.mapM GdbDebugger.registerName (names.zipIdx.map fun x => (MiValue.const x.1, x.2)) >>= _) = _
  rw [hnames]
  rfl

theorem getElem?_idxOf (h : name ∈ names) : names[names.idxOf name]? = some name :=
  List.getElem?_eq_some_iff.mpr ⟨List.idxOf_lt_length_of_mem h, List.getElem_idxOf _⟩

theorem lookup_nameTable (hdistinct : (names.filter (· ≠ [])).Nodup) (hn : names[n]? = some name) (hname : name ≠ []) :
    (nameTable names).lookup name = some n := by
  have hmem : (name, n) ∈ nameTable names := by
    rw [nameTable, List.mem_reverse, List.mem_filter, List.mk_mem_zipIdx_iff_getElem?]
    exact ⟨hn, decide_eq_true hname⟩
  have hkeys : ((nameTable names).map Prod.fst).Nodup := by
    have hfst : (names.zipIdx.filter (·.1 ≠ [])).map Prod.fst = names.filter (· ≠ []) := by
      conv_rhs => rw [← List.zipIdx_map_fst 0 names, List.filter_map]
      rfl
    rw [nameTable, List.map_reverse, List.nodup_reverse, hfst]
    exact hdistinct
  obtain ⟨before, after, heq⟩ := List.append_of_mem hmem
  rw [heq, List.map_append, List.map_cons, List.nodup_append] at hkeys
  refine List.lookup_eq_some_iff.mpr ⟨before, after, heq, fun p hp => ?_⟩
  have hne := hkeys.2.2 p.1 (List.mem_map_of_mem hp) name (.head _)
  exact bne_iff_ne.mpr (Ne.symm hne)

end Names

/-! ### The methods of the target -/

/-- The debugger holds the device in a state. -/
def Holds (names : List (List Char)) (device : σ → TargetState) (dev : TargetState) (d : GdbDebugger σ) : Prop :=
  device d.gdb = dev ∧ Cached names d.register_names

section Runs
variable {gdb running : Gdb σ} {names words : List (List Char)} {device : σ → TargetState}
  {checksum : TargetState → Nat → Nat → Nat} {dev : TargetState} {d : GdbDebugger σ} {name : List Char} {n : Nat}

theorem syncCmd_ok {cmd : List (List Char)} {result : Option MiValue} {process : σ}
    (h : gdb cmd d.gdb = .ok result process) : GdbDebugger.syncCmd gdb cmd d = .ok result { d with gdb := process } := by
  rw [GdbDebugger.syncCmd, h]

theorem python_ok {α : Type} {x : Except PyException α} {a : α} (h : x = .ok a) (d : GdbDebugger σ) :
    GdbDebugger.python x d = .ok a d := by
  rw [h]
  rfl

theorem strSize_bytes (size : AccessSize) : GdbDebugger.strSize size.bytes = .ok (typeName size) := by
  cases size <;> rfl

theorem strSize_error {size : Int} (h : ∀ s : AccessSize, size ≠ s.bytes) :
    GdbDebugger.strSize size = .error .keyError := by
  unfold GdbDebugger.strSize
  split
  · exact absurd rfl (h .byte)
  · exact absurd rfl (h .half)
  · exact absurd rfl (h .word)
  · rfl

theorem readTypedMemory_returns (h : Debugs gdb running names words device checksum) (hd : Holds names device dev d)
    {address : BitVec 32} {size : AccessSize} (hends : address.toNat + size.bytes ≤ 2 ^ 32) :
    Returns (readTypedMemory gdb address.toNat size.bytes) d fun v d' =>
      v = ofLE (dev.memory.load address size.bytes) ∧ Holds names device dev d' := by
  obtain ⟨reply, row, digits, process, hgdb, hmemory, hdata, hdigits, hdevice⟩ := h.readsMemory address size d.gdb hends
  rw [hd.1] at hdigits
  refine ⟨_, { d with gdb := process }, ?_, rfl, hdevice.trans hd.1, hd.2⟩
  have hsync : GdbDebugger.syncCmd gdb ["-data-read-memory".toList, "0x".toList ++ Numeral.hexInt address.toNat, "x".toList,
      Numeral.decInt size.bytes, "1".toList, "1".toList] d = .ok (some (.tuple reply)) { d with gdb := process } :=
    syncCmd_ok hgdb
  rw [readTypedMemory, GdbDebugger.readMemory, bind_ok (python_ok (strSize_bytes size) d), bind_ok hsync]
  refine python_ok ?_ _
  simp only [GdbDebugger.results, MiValue.member, hmemory, hdata, bind, Except.bind, MiValue.item, GdbServer.item,
    List.getElem?_cons_zero, MiValue.hexadecimal, int, hdigits]

/-- A size that has no type is refused before gdb is asked. -/
theorem readTypedMemory_error {size : Int} (hsize : ∀ s : AccessSize, size ≠ s.bytes) (address : Int) (d : GdbDebugger σ) :
    readTypedMemory gdb address size d = .error (.python .keyError) d := by
  rw [readTypedMemory, GdbDebugger.readMemory, strSize_error hsize]
  rfl

theorem writeTypedMemory_returns (h : Debugs gdb running names words device checksum) (hd : Holds names device dev d)
    {address : BitVec 32} {size : AccessSize} (hends : address.toNat + size.bytes ≤ 2 ^ 32)
    (value : BitVec (8 * size.bytes)) :
    Returns (writeTypedMemory gdb address.toNat size.bytes value.toNat) d fun _ =>
      Holds names device { dev with memory := dev.memory.store address (toLE size.bytes value.toNat) } := by
  obtain ⟨result, process, hgdb, hdevice⟩ := h.writesMemory address size value d.gdb hends
  rw [hd.1] at hdevice
  refine ⟨(), { d with gdb := process }, ?_, hdevice, hd.2⟩
  rw [writeTypedMemory, GdbDebugger.writeMemory, bind_ok (python_ok (strSize_bytes size) d)]
  exact bind_ok (syncCmd_ok hgdb)

theorem writeTypedMemory_error {size : Int} (hsize : ∀ s : AccessSize, size ≠ s.bytes) (address value : Int)
    (d : GdbDebugger σ) : writeTypedMemory gdb address size value d = .error (.python .keyError) d := by
  rw [writeTypedMemory, GdbDebugger.writeMemory, strSize_error hsize]
  rfl

theorem mapRegisterName_returns (h : Debugs gdb running names words device checksum) (hd : Holds names device dev d)
    {reg : String} (hn : names[n]? = some reg.toList) (hname : reg.toList ≠ []) :
    Returns (GdbDebugger.mapRegisterName gdb reg) d fun number d' => number = n ∧ Holds names device dev d' := by
  have hlookup := lookup_nameTable h.distinct hn hname
  obtain ⟨entry, table, htable⟩ : ∃ entry table, nameTable names = entry :: table := by
    refine List.exists_cons_of_ne_nil fun hnil => ?_
    rw [hnil] at hlookup
    cases hlookup
  have hget : (get : GdbDebugger.DebuggerM σ (GdbDebugger σ)) d = .ok d d := rfl
  show Returns (get >>= fun s => _) d _
  rw [Returns, bind_ok hget]
  rcases hd.2 with hcache | hcache
  · obtain ⟨process, hgdb, hdevice⟩ := h.lists d.gdb
    have hnames : (GdbDebugger.results "register-names" (some (.tuple [("register-names", .list (names.map .const))])) >>=
        GdbDebugger.registerNames) = .ok (nameTable names) := registerNames_eq h.bounded
    refine ⟨n, ⟨process, some (nameTable names)⟩, ?_, rfl, hdevice.trans hd.1, .inr rfl⟩
    rw [hcache]
    dsimp only
    rw [bind_ok (syncCmd_ok hgdb), bind_ok (python_ok hnames _)]
    simp only [pure_bind, hlookup]
    rfl
  · refine ⟨n, d, ?_, rfl, hd⟩
    rw [htable] at hcache hlookup
    rw [hcache]
    simp only [pure_bind, hlookup]
    rfl

theorem getRegister_returns (h : Debugs gdb running names words device checksum) (hd : Holds names device dev d)
    {reg : String} (hn : names[n]? = some reg.toList) (hname : reg.toList ∈ words) :
    Returns (getRegister gdb reg) d fun v d' => v = (dev.registers n).toNat ∧ Holds names device dev d' := by
  refine Returns.bind (mapRegisterName_returns h hd hn (h.listed _ hname).2) ?_
  rintro number d' ⟨hnumber, hdevice, hcached⟩
  rw [hnumber]
  obtain ⟨process, hgdb, hprocess⟩ := h.readsRegister n _ d'.gdb hn hname
  rw [hdevice] at hgdb hprocess
  refine ⟨_, { d' with gdb := process }, tryCatch_ok ?_, rfl, hprocess, hcached⟩
  have hsync : GdbDebugger.syncCmd gdb ["-data-list-register-values".toList, "x".toList, Numeral.decInt n] d' =
      .ok (some (registerValues n (dev.registers n))) { d' with gdb := process } := syncCmd_ok hgdb
  have hvalue : (MiValue.const ('0' :: 'x' :: Numeral.hex (dev.registers n).toNat)).hexadecimal =
      .ok ((dev.registers n).toNat : Int) := by
    rw [MiValue.hexadecimal, int, Numeral.parse_prefixed_hex]
  rw [bind_ok hsync]
  exact python_ok hvalue _

/-- What an assignment to a name does to the registers -/
def TargetState.assign (names : List (List Char)) (name : List Char) (value : BitVec 32) (dev : TargetState) :
    TargetState :=
  { dev with registers := Function.update dev.registers (names.idxOf name) value }

theorem setRegister_returns (h : Debugs gdb running names words device checksum) (hd : Holds names device dev d)
    {reg : String} (hname : reg.toList ∈ words) (value : BitVec 32) :
    Returns (setRegister gdb (.name reg) value.toNat) d fun _ =>
      Holds names device (dev.assign names reg.toList value) := by
  have hn := getElem?_idxOf (h.listed _ hname).1
  obtain ⟨result, process, hgdb, hdevice⟩ := h.writesRegister _ _ value d.gdb hn hname
  rw [hd.1] at hdevice
  refine ⟨(), { d with gdb := process }, ?_, hdevice, hd.2⟩
  exact (bind_ok (python_ok rfl d)).trans (bind_ok (syncCmd_ok hgdb))

theorem getChecksum_returns (h : Debugs gdb running names words device checksum) (hd : Holds names device dev d)
    {address size : Nat} (hends : address + size ≤ 2 ^ 32) :
    Returns (getChecksum gdb address size) d fun v d' => v = checksum dev address size ∧ Holds names device dev d' := by
  obtain ⟨reply, process, hgdb, hvalue, hdevice⟩ := h.checksums address size d.gdb hends
  rw [hd.1] at hvalue hdevice
  refine ⟨_, { d with gdb := process }, ?_, rfl, hdevice, hd.2⟩
  have hsync : GdbDebugger.syncCmd gdb ["-gdb-show".toList, "remote".toList, "checksum".toList, Numeral.hexInt address,
      Numeral.hexInt size] d = .ok (some (.tuple reply)) { d with gdb := process } := syncCmd_ok hgdb
  rw [getChecksum, GdbDebugger.getChecksum, bind_ok hsync]
  refine python_ok ?_ _
  simp only [GdbDebugger.results, MiValue.member, hvalue, bind, Except.bind, MiValue.decimal, int, Numeral.parse_dec]

theorem cont_returns (h : Debugs gdb running names words device checksum) (hd : Holds names device dev d) :
    Returns (cont running) d fun _ d' => ∃ dev', Holds names device dev' d' := by
  obtain ⟨result, process, hgdb⟩ := h.continues d.gdb
  exact ⟨(), { d with gdb := process }, bind_ok (syncCmd_ok hgdb), device process, rfl, hd.2⟩

end Runs

end GdbserverTarget

end Avatar
