import Avatar.Translator.Effects

/-! Translated logical instructions, moves, loads and stores against the architecture. They are right for all operands,
    but for the load relative to the program counter: its address is a sum of 64 bits, so where the sum does not fit into
    32 bits the word comes from behind the end of the address space. -/

namespace Avatar.Translator
open Bytes EmitM

/-! ### What the instructions should do -/

/-- The address that a load relative to the program counter should read -/
def MCInst.literal (inst : MCInst) (offset : Int) : BitVec 32 :=
  ((inst.pc.setWidth 32 + 4) &&& 0xFFFFFFFC) + BitVec.ofInt 32 offset

/-- The little-endian word at an address -/
def wordAt (memory : WordMemory 32) (a : BitVec 32) : BitVec 32 := BitVec.ofNat 32 (ofLE (memory.load a 4))

/-- The little-endian halfword at an address, extended with zeros -/
def halfwordAt (memory : WordMemory 32) (a : BitVec 32) : BitVec 32 := BitVec.ofNat 32 (ofLE (memory.load a 2))

/-- A register gets a value, and nothing else changes. -/
structure Binds (d : Register) (value : BitVec 32) (registers registers' : Registers) (m m' : Machine) : Prop where
  rd : registers' d = some (.i32 value)
  others : registers.KeptExcept [d] registers'
  machine : m' = m

/-- The flags `Z` and `N` are also set from the value. -/
structure BindsFlags (d : Register) (value : BitVec 32) (registers registers' : Registers) (m m' : Machine) : Prop where
  rd : registers' d = some (.i32 value)
  z : registers' .flagZ = some (.i1 (decide (value = 0)))
  n : registers' .flagN = some (.i1 (value.getLsbD 31))
  others : registers.KeptExcept [d, .flagZ, .flagN] registers'
  machine : m' = m

/-- Bytes are stored, and nothing else changes. -/
structure Stores (a : BitVec 32) (bytes : List Byte) (registers registers' : Registers) (m m' : Machine) : Prop where
  memory : m'.memory = WordMemory.store m.memory a bytes
  members : m'.members = m.members
  registers : registers.KeptExcept [] registers'

/-- What the instruction should do, where the code memory is `code`. -/
def Exact (code : WordMemory 32) (inst : MCInst) (registers registers' : Registers) (m m' : Machine) : Prop :=
  match inst.opcode, inst.operands with
  | .tAND, .reg d :: _ :: .reg n :: .reg r :: _ =>
    BindsFlags d (registers.word n &&& registers.word r) registers registers' m m'
  | .tORR, .reg d :: _ :: .reg n :: .reg r :: _ =>
    BindsFlags d (registers.word n ||| registers.word r) registers registers' m m'
  | .tBIC, .reg d :: _ :: .reg n :: .reg r :: _ =>
    BindsFlags d (registers.word n &&& ~~~registers.word r) registers registers' m m'
  | .tMOVi8, .reg d :: _ :: .imm imm :: _ => BindsFlags d (BitVec.ofInt 32 imm) registers registers' m m'
  | .tLDRi, .reg d :: .reg n :: .imm imm :: _ =>
    Binds d (wordAt m.memory (registers.word n + 4 * BitVec.ofInt 32 imm)) registers registers' m m'
  | .tLDRHi, .reg d :: .reg n :: .imm imm :: _ =>
    Binds d (halfwordAt m.memory (registers.word n + 2 * BitVec.ofInt 32 imm)) registers registers' m m'
  | .tSTRi, .reg d :: .reg n :: .imm imm :: _ =>
    Stores (registers.word n + 4 * BitVec.ofInt 32 imm) (toLE 4 (registers.word d).toNat) registers registers' m m'
  | .tSTRHi, .reg d :: .reg n :: .imm imm :: _ =>
    Stores (registers.word n + 2 * BitVec.ofInt 32 imm) (toLE 2 (registers.word d).toNat) registers registers' m m'
  | .tLDRpciASM, .reg d :: .imm offset :: _ => Binds d (wordAt code (inst.literal offset)) registers registers' m m'
  | _, _ => False

/-- The callback gives the bytes of the code memory below the end of the address space. -/
def Serves (memory : CodeMemory) (code : WordMemory 32) : Prop :=
  ∀ (a : BitVec 64) (n : Nat), a.toNat + n ≤ 2 ^ 32 → memory a n = (n, code.load (a.setWidth 32) n)

/-- The callback knows no address behind the end of the address space. -/
def Ends (memory : CodeMemory) (code : WordMemory 32) : Prop :=
  ∀ (a : BitVec 64) (n : Nat), 2 ^ 32 < a.toNat + n →
    (memory a n).2 = (code.load (a.setWidth 32) n).take (2 ^ 32 - a.toNat)

/-- The word of a load relative to the program counter ends within the address space. -/
def LiteralInReach (inst : MCInst) : Prop :=
  ∀ offset, inst.opcode = .tLDRpciASM → inst.operands[1]? = some (.imm offset) →
    (literalAddress inst offset).toNat + 4 ≤ 2 ^ 32

/-- Where the word goes on at the start of the address space, the bytes there are zero. -/
def LiteralZeroBehind (code : WordMemory 32) (inst : MCInst) : Prop :=
  ∀ offset, inst.opcode = .tLDRpciASM → inst.operands[1]? = some (.imm offset) →
    ∀ i < 4, 2 ^ 32 ≤ (literalAddress inst offset).toNat + i → code (inst.literal offset + BitVec.ofNat 32 i) = 0

section Exactness
variable {inst : MCInst} {memory : CodeMemory} {code : WordMemory 32} {translator : MCInst → EmitM Successor}
  {d n : Register} {registers registers' : Registers} {m m' : Machine} {x y : BitVec 32}

/-! ### Logical instructions and moves -/

/-- The values that a logical instruction sets: the result, and the flags `Z` and `N` from it -/
def logicalValues (d : Register) (rd : Value) (values : Values) : Values :=
  ((values.set d rd).set .flagZ (.icmp .eq rd (int32 0))).set .flagN (sign rd)

theorem read_logicalValues {values : Values} {env : Ssa.Env Register (Nat × Argument)} {rd : Value}
    (hrd : rd.eval env = some (.i32 x)) : (logicalValues d rd values).read env =
      (((values.read env).set d (.i32 x)).set .flagZ (.i1 (x == 0))).set .flagN (.i1 x.msb) := by
  rw [logicalValues, Values.read_set (eval_sign hrd), Values.read_set (eval_isZero hrd), Values.read_set hrd]

theorem emission_logical {r : Register} (op : Value → Value → Value)
    (hoperands : inst.operands = [.reg d, .reg .cpsr, .reg n, .reg r] ++ Operand.always)
    (hn : n.isLow = true) (hr : r.isLow = true) : logical inst op ⟨[], initialValues⟩ =
      some (.fallThrough, ⟨[], logicalValues d (op (.phi n) (.phi r)) initialValues⟩) := by
  have hget (i : Nat) := congrArg (fun operands => operands[i]?) hoperands
  simp only [logical, bind_apply, assertAlways_apply (hget 4) (hget 5), assertOperand_apply (hget 1),
    getReg_apply (hget 2), getReg_apply (hget 3), getReg_apply (hget 0), getValue_apply, lookup_low hn, lookup_low hr,
    Option.map_some, Option.bind_some]
  rfl

theorem emission_tMOVi8 {imm : Int} (hoperands : inst.operands = [.reg d, .reg .cpsr, .imm imm] ++ Operand.always) :
    tMOVi8 inst ⟨[], initialValues⟩ = some (.fallThrough, ⟨[], logicalValues d (int32 imm) initialValues⟩) := by
  have hget (i : Nat) := congrArg (fun operands => operands[i]?) hoperands
  simp only [tMOVi8, bind_apply, assertAlways_apply (hget 3) (hget 4), assertOperand_apply (hget 1),
    getReg_apply (hget 0), getImm_apply (hget 2), Option.bind_some]
  rfl

theorem bindsFlags_of_agree (hd : d.isLow = true)
    (h : registers'.Agree (((registers.set d (.i32 x)).set .flagZ (.i1 (x == 0))).set .flagN (.i1 x.msb))) :
    BindsFlags d x registers registers' m m := by
  have hflags := not_mem_flags_of_isLow hd
  simp only [List.mem_cons, List.not_mem_nil, or_false, not_or] at hflags
  refine ⟨?_, h .flagZ rfl, ?_, fun id hid hne => ?_, rfl⟩
  · rw [h d (by rw [(registerType_of_isLow hd).1]; rfl), Registers.set_of_ne hflags.2.1, Registers.set_of_ne hflags.1,
      Registers.set_self]
  · rw [← BitVec.msb_eq_getLsbD_last]
    exact h .flagN rfl
  · simp only [List.mem_cons, List.not_mem_nil, or_false, not_or] at hne
    rw [h id hid, Registers.set_of_ne hne.2.2, Registers.set_of_ne hne.2.1, Registers.set_of_ne hne.1]

/-- An instruction without code that sets a result and the flags `Z` and `N` from it -/
theorem effect_logicalValues (hd : d.isLow = true) {rd : Value}
    (he : translator inst ⟨[], initialValues⟩ = some (.fallThrough, ⟨[], logicalValues d rd initialValues⟩))
    (hrd : rd.eval ⟨registers, []⟩ = some (.i32 x)) (m : Machine) : ∃ registers',
      effect translator inst registers m = some (inst.nextPc, registers', m) ∧
        BindsFlags d x registers registers' m m := by
  refine ⟨_, effect_of_values he registers m, bindsFlags_of_agree hd ?_⟩
  rw [read_logicalValues hrd]
  exact (agree_read_initialValues registers []).set.set.set

theorem effect_logical (op : Value → Value → Value) {r : Register}
    (hoperands : inst.operands = [.reg d, .reg .cpsr, .reg n, .reg r] ++ Operand.always)
    (hd : d.isLow = true) (hn : n.isLow = true) (hr : r.isLow = true)
    (hrd : (op (.phi n) (.phi r)).eval ⟨registers, []⟩ = some (.i32 x)) (m : Machine) : ∃ registers',
      effect (fun inst => logical inst op) inst registers m = some (inst.nextPc, registers', m) ∧
        BindsFlags d x registers registers' m m :=
  have he : (fun inst => logical inst op) inst ⟨[], initialValues⟩ = _ := emission_logical op hoperands hn hr
  effect_logicalValues hd he hrd m

theorem eval_binary (op : Ssa.BinaryOp) {env : Ssa.Env Register (Nat × Argument)} {lhs rhs : Value} {z : BitVec 32}
    (hl : lhs.eval env = some (.i32 x)) (hr : rhs.eval env = some (.i32 y)) (h : op.eval32 x y = some z) :
    Ssa.Value.eval env (.binary op lhs rhs) = some (.i32 z) := by
  rw [Ssa.Value.eval, hl, hr]
  show (op.eval32 x y).map Ssa.Val.i32 = _
  rw [h, Option.map_some]

/-! ### Loads and stores -/

theorem effect_of_code {values : Values} {instrs : List Instr} {env : Ssa.Env Register (Nat × Argument)}
    (he : translator inst ⟨[], initialValues⟩ = some (.fallThrough, ⟨instrs, values⟩))
    (hrun : Ssa.execAll (⟨registers, []⟩, m) instrs = some (env, m')) :
    effect translator inst registers m = some (inst.nextPc, values.read env, m') := by
  simp only [effect, he, hrun, Option.bind_eq_bind, Option.bind_some]
  rfl

theorem binds_of_agree (hd : d.isLow = true) (h : registers'.Agree (registers.set d (.i32 x))) :
    Binds d x registers registers' m m := by
  refine ⟨?_, fun id hid hne => ?_, rfl⟩
  · rw [h d (by rw [(registerType_of_isLow hd).1]; rfl), Registers.set_self]
  · rw [h id hid, Registers.set_of_ne (List.mem_singleton.not.mp hne)]

/-- A register gets a value that does not depend on code. -/
theorem effect_set (hd : d.isLow = true) {instrs : List Instr} {rd : Value}
    {results : List (Option (Ssa.Val (Nat × Argument)))}
    (he : translator inst ⟨[], initialValues⟩ = some (.fallThrough, ⟨instrs, initialValues.set d rd⟩))
    (hrun : Ssa.execAll (⟨registers, []⟩, m) instrs = some (⟨registers, results⟩, m))
    (hrd : rd.eval ⟨registers, results⟩ = some (.i32 x)) : ∃ registers',
      effect translator inst registers m = some (inst.nextPc, registers', m) ∧ Binds d x registers registers' m m := by
  refine ⟨_, effect_of_code he hrun, binds_of_agree hd ?_⟩
  rw [Values.read_set hrd]
  exact (agree_read_initialValues registers results).set

theorem effect_stores {instr : Instr} {a : BitVec 32} {bytes : List Byte}
    {results : List (Option (Ssa.Val (Nat × Argument)))}
    (he : translator inst ⟨[], initialValues⟩ = some (.fallThrough, ⟨[instr], initialValues⟩))
    (hexec : instr.exec (⟨registers, []⟩, m) = some (⟨registers, results⟩, m'))
    (hmemory : m'.memory = WordMemory.store m.memory a bytes) (hmembers : m'.members = m.members) : ∃ registers' m',
      effect translator inst registers m = some (inst.nextPc, registers', m') ∧
        Stores a bytes registers registers' m m' := by
  have hrun : Ssa.execAll (⟨registers, []⟩, m) [instr] = some (⟨registers, results⟩, m') := by
    rw [Ssa.execAll_cons, hexec]
    rfl
  refine ⟨_, m', effect_of_code he hrun, hmemory, hmembers, fun id hid _ => ?_⟩
  exact agree_read_initialValues registers results id hid

theorem element_eq (registers : Registers) (size : BitVec 32) (n : Register) (imm : Int) :
    registers.element size n imm = registers.word n + size * BitVec.ofInt 32 imm := by
  rw [Registers.element, BitVec.mul_comm]

theorem effect_tLDRi {imm : Int} (hoperands : inst.operands = [.reg d, .reg n, .imm imm] ++ Operand.always)
    (hd : d.isLow = true) (hn : n.isLow = true) (htyped : registers.Typed) (m : Machine) : ∃ registers',
      effect tLDRi inst registers m = some (inst.nextPc, registers', m) ∧
        Binds d (wordAt m.memory (registers.word n + 4 * BitVec.ofInt 32 imm)) registers registers' m m := by
  have haddress := eval_elementPtr htyped hn 4 imm []
  rw [element_eq] at haddress
  have hrun : Ssa.execAll (⟨registers, []⟩, m) [.load .i32 (elementPtr 4 n imm) translatedMemoryAccess] =
      some (⟨registers, [some (.i32 (m.load32 (registers.word n + 4 * BitVec.ofInt 32 imm)))]⟩, m) := by
    rw [Ssa.execAll_cons]
    simp only [Ssa.Instr.exec, haddress]
    rfl
  rw [Ssa.Machine.load32_eq] at hrun
  exact effect_set hd (emission_tLDRi hoperands hn) hrun rfl

theorem effect_tLDRHi {imm : Int} (hoperands : inst.operands = [.reg d, .reg n, .imm imm] ++ Operand.always)
    (hd : d.isLow = true) (hn : n.isLow = true) (htyped : registers.Typed) (m : Machine) : ∃ registers',
      effect tLDRHi inst registers m = some (inst.nextPc, registers', m) ∧
        Binds d (halfwordAt m.memory (registers.word n + 2 * BitVec.ofInt 32 imm)) registers registers' m m := by
  have haddress := eval_elementPtr htyped hn 2 imm []
  rw [element_eq] at haddress
  have hrun : Ssa.execAll (⟨registers, []⟩, m) [.load .i16 (elementPtr 2 n imm) translatedMemoryAccess] =
      some (⟨registers, [some (.i16 (m.load16 (registers.word n + 2 * BitVec.ofInt 32 imm)))]⟩, m) := by
    rw [Ssa.execAll_cons]
    simp only [Ssa.Instr.exec, haddress]
    rfl
  have hzext : (m.load16 (registers.word n + 2 * BitVec.ofInt 32 imm)).setWidth 32 =
      halfwordAt m.memory (registers.word n + 2 * BitVec.ofInt 32 imm) := by
    have hlt : ofLE (WordMemory.load m.memory (registers.word n + 2 * BitVec.ofInt 32 imm) 2) < 2 ^ 16 :=
      (ofLE_lt _).trans_eq (by rw [WordMemory.length_load]; rfl)
    rw [Ssa.Machine.load16_eq, halfwordAt, ← BitVec.ofNat_toNat, BitVec.toNat_ofNat, Nat.mod_eq_of_lt hlt]
  refine effect_set hd (emission_tLDRHi hoperands hn) hrun ?_
  rw [← hzext]
  rfl

theorem effect_tSTRi {imm : Int} (hoperands : inst.operands = [.reg d, .reg n, .imm imm] ++ Operand.always)
    (hd : d.isLow = true) (hn : n.isLow = true) (htyped : registers.Typed) (m : Machine) : ∃ registers' m',
      effect tSTRi inst registers m = some (inst.nextPc, registers', m') ∧
        Stores (registers.word n + 4 * BitVec.ofInt 32 imm) (toLE 4 (registers.word d).toNat) registers registers'
          m m' := by
  have haddress := eval_elementPtr htyped hn 4 imm []
  rw [element_eq] at haddress
  have hexec : Ssa.Instr.exec (⟨registers, []⟩, m) (.store (.phi d) (elementPtr 4 n imm) translatedMemoryAccess) =
      some (⟨registers, [none]⟩, m.store32 (registers.word n + 4 * BitVec.ofInt 32 imm) (registers.word d)) := by
    simp only [Ssa.Instr.exec, haddress, eval_phi htyped hd]
    rfl
  exact effect_stores (emission_tSTRi hoperands hd hn) hexec Ssa.Machine.store32_memory rfl

theorem effect_tSTRHi {imm : Int} (hoperands : inst.operands = [.reg d, .reg n, .imm imm] ++ Operand.always)
    (hd : d.isLow = true) (hn : n.isLow = true) (htyped : registers.Typed) (m : Machine) : ∃ registers' m',
      effect tSTRHi inst registers m = some (inst.nextPc, registers', m') ∧
        Stores (registers.word n + 2 * BitVec.ofInt 32 imm) (toLE 2 (registers.word d).toNat) registers registers'
          m m' := by
  have haddress := eval_elementPtr htyped hn 2 imm []
  rw [element_eq] at haddress
  have hexec : Ssa.Instr.exec (⟨registers, []⟩, m)
      (.store (.trunc (.phi d)) (elementPtr 2 n imm) translatedMemoryAccess) = some (⟨registers, [none]⟩,
        m.store16 (registers.word n + 2 * BitVec.ofInt 32 imm) ((registers.word d).setWidth 16)) := by
    simp only [Ssa.Instr.exec, haddress, Ssa.Value.eval, htyped.word (registerType_of_isLow hd).1]
    rfl
  have hlow : toLE 2 ((registers.word d).setWidth 16).toNat = toLE 2 (registers.word d).toNat := by
    rw [BitVec.toNat_setWidth]
    exact toLE_mod 2 _
  have hmemory := Ssa.Machine.store16_memory (m := m) (a := registers.word n + 2 * BitVec.ofInt 32 imm)
    ((registers.word d).setWidth 16)
  rw [hlow] at hmemory
  exact effect_stores (emission_tSTRHi hoperands hd hn) hexec hmemory rfl

/-! ### Loads relative to the program counter -/

theorem setWidth_literalAddress (inst : MCInst) (offset : Int) :
    (literalAddress inst offset).setWidth 32 = inst.literal offset := by
  rw [literalAddress, MCInst.literal, BitVec.setWidth_add _ _ (by decide), BitVec.setWidth_and,
    BitVec.setWidth_add _ _ (by decide), BitVec.setWidth_setWidth_of_le _ (by decide), BitVec.setWidth_eq]
  rfl

theorem length_readBytes (memory : CodeMemory) (a : BitVec 64) (size : Nat) :
    (readBytes memory a size).2.length = size := by
  show ((memory a size).2.take size ++ List.replicate (size - (memory a size).2.length) 0).length = size
  rw [List.length_append, List.length_take, List.length_replicate]
  omega

theorem readBytes_of_serves (h : Serves memory code) {a : BitVec 64} {size : Nat} (ha : a.toNat + size ≤ 2 ^ 32) :
    (readBytes memory a size).2 = code.load (a.setWidth 32) size := by
  have hlength := WordMemory.length_load code (a.setWidth 32) size
  rw [readBytes, h a size ha]
  show (code.load (a.setWidth 32) size).take size ++
    List.replicate (size - (code.load (a.setWidth 32) size).length) 0 = _
  rw [hlength, Nat.sub_self, List.replicate_zero, List.append_nil, List.take_of_length_le (Nat.le_of_eq hlength)]

/-- The buffer keeps its zeros where the callback gives no byte. -/
theorem readBytes_of_ends (h : Ends memory code) {a : BitVec 64} {size : Nat} (ha : 2 ^ 32 < a.toNat + size) :
    (readBytes memory a size).2 = (code.load (a.setWidth 32) size).take (2 ^ 32 - a.toNat) ++
      List.replicate (size - (2 ^ 32 - a.toNat)) 0 := by
  have hlength : ((code.load (a.setWidth 32) size).take (2 ^ 32 - a.toNat)).length = 2 ^ 32 - a.toNat := by
    rw [List.length_take, WordMemory.length_load]
    omega
  show (memory a size).2.take size ++ List.replicate (size - (memory a size).2.length) 0 = _
  rw [h a size ha, hlength, List.take_of_length_le (by omega)]

theorem readBytes_eq_iff (hserves : Serves memory code) (hends : Ends memory code) (a : BitVec 64) (size : Nat) :
    (readBytes memory a size).2 = code.load (a.setWidth 32) size ↔
      ∀ i < size, 2 ^ 32 ≤ a.toNat + i → code (a.setWidth 32 + BitVec.ofNat 32 i) = 0 := by
  by_cases ha : a.toNat + size ≤ 2 ^ 32
  · exact iff_of_true (readBytes_of_serves hserves ha) fun i hi hle => by omega
  rw [readBytes_of_ends hends (Nat.lt_of_not_le ha)]
  conv =>
    lhs
    rhs
    rw [← List.take_append_drop (2 ^ 32 - a.toNat) (code.load (a.setWidth 32) size)]
  rw [List.append_right_inj, eq_comm, List.eq_replicate_iff, List.length_drop, WordMemory.length_load,
    and_iff_right rfl]
  constructor
  · intro hzero i hi hle
    refine hzero _ (List.mem_drop_iff_getElem.mpr ⟨i - (2 ^ 32 - a.toNat), ?_, ?_⟩)
    · rw [WordMemory.length_load]
      omega
    · have hindex : 2 ^ 32 - a.toNat + (i - (2 ^ 32 - a.toNat)) = i := by omega
      simp only [WordMemory.load, List.getElem_map, List.getElem_range, hindex]
  · intro hzero b hb
    obtain ⟨i, hi, rfl⟩ := List.mem_drop_iff_getElem.mp hb
    rw [WordMemory.length_load] at hi
    have hbyte := hzero (2 ^ 32 - a.toNat + i) (by omega) (by omega)
    simpa [WordMemory.load] using hbyte

theorem emission_tLDRpciASM (memory : CodeMemory) {offset : Int}
    (hoperands : inst.operands = [.reg d, .imm offset] ++ Operand.always) :
    tLDRpciASM memory inst ⟨[], initialValues⟩ = some (.fallThrough,
      ⟨[], initialValues.set d (int32 (ofLE (readBytes memory (literalAddress inst offset) 4).2))⟩) := by
  have hget (i : Nat) := congrArg (fun operands => operands[i]?) hoperands
  simp only [tLDRpciASM, bind_apply, assertAlways_apply (hget 2) (hget 3), getReg_apply (hget 0),
    getImm_apply (hget 1), Option.bind_some]
  rfl

/-- Two lists of four bytes stand for the same word only if they are the same. -/
theorem word_injective {bytes bytes' : List Byte} (h : bytes.length = 4) (h' : bytes'.length = 4)
    (heq : BitVec.ofNat 32 (ofLE bytes) = BitVec.ofNat 32 (ofLE bytes')) : bytes = bytes' := by
  have hlt : ofLE bytes < 2 ^ 32 := (ofLE_lt bytes).trans_eq (by rw [h]; rfl)
  have hlt' : ofLE bytes' < 2 ^ 32 := (ofLE_lt bytes').trans_eq (by rw [h']; rfl)
  have hvalue := congrArg BitVec.toNat heq
  rw [BitVec.toNat_ofNat, BitVec.toNat_ofNat, Nat.mod_eq_of_lt hlt, Nat.mod_eq_of_lt hlt'] at hvalue
  rw [← toLE_ofLE bytes, ← toLE_ofLE bytes', h, h', hvalue]

/-- The register gets the word that it should get if and only if the bytes that are read are those of the word. -/
theorem binds_literal_iff {offset : Int}
    (h : Binds d (BitVec.ofNat 32 (ofLE (readBytes memory (literalAddress inst offset) 4).2)) registers registers' m m) :
    Binds d (wordAt code (inst.literal offset)) registers registers' m m ↔
      (readBytes memory (literalAddress inst offset) 4).2 = code.load (inst.literal offset) 4 := by
  constructor
  · intro hbinds
    have hword := h.rd.symm.trans hbinds.rd
    rw [Option.some.injEq, Ssa.Val.i32.injEq] at hword
    exact word_injective (length_readBytes ..) (WordMemory.length_load ..) hword
  · intro heq
    rw [wordAt, ← heq]
    exact h

/-! ### All nine instructions -/

/-- The instructions that the theorem is about -/
def exactOpcodes : List Opcode := [.tAND, .tORR, .tBIC, .tMOVi8, .tLDRi, .tLDRHi, .tSTRi, .tSTRHi, .tLDRpciASM]

theorem exists_logical {operands : List Operand}
    (h : ∃ d n r, operands = [d, .reg .cpsr, n, r] ++ Operand.always ∧ d.IsLow ∧ n.IsLow ∧ r.IsLow) :
    ∃ d n r, operands = [.reg d, .reg .cpsr, .reg n, .reg r] ++ Operand.always ∧ d.isLow = true ∧ n.isLow = true ∧
      r.isLow = true := by
  obtain ⟨_, _, _, hoperands, hd, hn, hr⟩ := h
  obtain ⟨d, rfl, hd⟩ := hd.exists_reg
  obtain ⟨n, rfl, hn⟩ := hn.exists_reg
  obtain ⟨r, rfl, hr⟩ := hr.exists_reg
  exact ⟨d, n, r, hoperands, hd, hn, hr⟩

/-- Of the nine only the load relative to the program counter needs a condition. -/
theorem exact_of_ne {opcode : Opcode} {operands : List Operand} (hop : inst.opcode = opcode)
    (hoperands : inst.operands = operands) (hne : opcode ≠ .tLDRpciASM)
    (heffect : effect translator inst registers m = some (inst.nextPc, registers', m'))
    (hexact : Exact code { inst with opcode, operands } registers registers' m m') : ∃ registers' m',
      effect translator inst registers m = some (inst.nextPc, registers', m') ∧
        (LiteralInReach inst → Exact code inst registers registers' m m') ∧
        (Ends memory code → (Exact code inst registers registers' m m' ↔ LiteralZeroBehind code inst)) := by
  subst hop hoperands
  exact ⟨registers', m', heffect, fun _ => hexact, fun _ => iff_of_true hexact fun _ h => absurd h hne⟩

/-- A translated instruction does exactly what it should if the word that it loads relative to the program counter, if it
    does, ends within the address space. Where the callback knows no address behind it, the instruction does so if and
    only if the bytes with which the word goes on at the start are zero. -/
theorem exact_iff (hserves : Serves memory code) (hopcode : inst.opcode ∈ exactOpcodes)
    (hwellFormed : WellFormed inst.opcode inst.operands)
    (htranslator : instructionTranslator memory inst.opcode = some translator) (htyped : registers.Typed) (m : Machine) :
    ∃ registers' m', effect translator inst registers m = some (inst.nextPc, registers', m') ∧
      (LiteralInReach inst → Exact code inst registers registers' m m') ∧
      (Ends memory code → (Exact code inst registers registers' m m' ↔ LiteralZeroBehind code inst)) := by
  generalize hop : inst.opcode = opcode at hopcode hwellFormed htranslator
  have hphi {r : Register} (hr : r.isLow = true) := eval_phi htyped hr []
  have hnot {v : Value} {x : BitVec 32} (hv : v.eval ⟨registers, []⟩ = some (.i32 x)) :
      Ssa.Value.eval ⟨registers, []⟩ (.not v) = some (.i32 (~~~x)) := by
    rw [Ssa.Value.eval, hv]
  cases opcode
  case tAND =>
    cases htranslator
    obtain ⟨d, n, r, hoperands, hd, hn, hr⟩ := exists_logical hwellFormed
    obtain ⟨registers', heffect, hbinds⟩ := effect_logical (.binary .and) hoperands hd hn hr
      (eval_binary .and (hphi hn) (hphi hr) rfl) m
    exact exact_of_ne hop hoperands (by simp) heffect hbinds
  case tORR =>
    cases htranslator
    obtain ⟨d, n, r, hoperands, hd, hn, hr⟩ := exists_logical hwellFormed
    obtain ⟨registers', heffect, hbinds⟩ := effect_logical (.binary .or) hoperands hd hn hr
      (eval_binary .or (hphi hn) (hphi hr) rfl) m
    exact exact_of_ne hop hoperands (by simp) heffect hbinds
  case tBIC =>
    cases htranslator
    obtain ⟨d, n, r, hoperands, hd, hn, hr⟩ := exists_logical hwellFormed
    obtain ⟨registers', heffect, hbinds⟩ := effect_logical (fun rn rm => .binary .and rn (.not rm)) hoperands hd
      hn hr (eval_binary .and (hphi hn) (hnot (hphi hr)) rfl) m
    exact exact_of_ne hop hoperands (by simp) heffect hbinds
  case tMOVi8 =>
    cases htranslator
    obtain ⟨_, _, hoperands, hd, hi⟩ := hwellFormed
    obtain ⟨d, rfl, hd⟩ := hd.exists_reg
    obtain ⟨imm, rfl⟩ := hi.exists_imm
    obtain ⟨registers', heffect, hbinds⟩ := effect_logicalValues hd (emission_tMOVi8 hoperands) (eval_int32 imm) m
    exact exact_of_ne hop hoperands (by simp) heffect hbinds
  case tLDRi =>
    cases htranslator
    obtain ⟨d, n, imm, hoperands, hd, hn⟩ := exists_transferred hwellFormed
    obtain ⟨registers', heffect, hbinds⟩ := effect_tLDRi hoperands hd hn htyped m
    exact exact_of_ne hop hoperands (by simp) heffect hbinds
  case tLDRHi =>
    cases htranslator
    obtain ⟨d, n, imm, hoperands, hd, hn⟩ := exists_transferred hwellFormed
    obtain ⟨registers', heffect, hbinds⟩ := effect_tLDRHi hoperands hd hn htyped m
    exact exact_of_ne hop hoperands (by simp) heffect hbinds
  case tSTRi =>
    cases htranslator
    obtain ⟨d, n, imm, hoperands, hd, hn⟩ := exists_transferred hwellFormed
    obtain ⟨registers', m', heffect, hstores⟩ := effect_tSTRi hoperands hd hn htyped m
    exact exact_of_ne hop hoperands (by simp) heffect hstores
  case tSTRHi =>
    cases htranslator
    obtain ⟨d, n, imm, hoperands, hd, hn⟩ := exists_transferred hwellFormed
    obtain ⟨registers', m', heffect, hstores⟩ := effect_tSTRHi hoperands hd hn htyped m
    exact exact_of_ne hop hoperands (by simp) heffect hstores
  case tLDRpciASM =>
    cases htranslator
    obtain ⟨_, _, hoperands, hd, hi⟩ := hwellFormed
    obtain ⟨d, rfl, hd⟩ := hd.exists_reg
    obtain ⟨offset, rfl⟩ := hi.exists_imm
    obtain ⟨registers', heffect, hbinds⟩ := effect_set (m := m) hd (emission_tLDRpciASM memory hoperands) rfl
      (eval_int32 _)
    have hexact : Exact code inst registers registers' m m ↔
        (readBytes memory (literalAddress inst offset) 4).2 = code.load (inst.literal offset) 4 := by
      rw [Exact, hop, hoperands]
      exact binds_literal_iff hbinds
    have himm : inst.operands[1]? = some (.imm offset) := by rw [hoperands]; rfl
    have hliteral := setWidth_literalAddress inst offset
    refine ⟨registers', m, heffect, fun hreach => hexact.mpr ?_, fun hends => ?_⟩
    · rw [readBytes_of_serves hserves (hreach offset hop himm), hliteral]
    · rw [hexact, ← hliteral, readBytes_eq_iff hserves hends, hliteral]
      constructor
      · intro hzero offset' _ himm'
        cases himm.symm.trans himm'
        exact hzero
      · intro hzero
        exact hzero offset hop himm
  all_goals exact absurd hopcode (by simp [exactOpcodes])

/-- `LDR r0, [pc, #8]`, at the end of the address space -/
def loadLiteral : MCInst := ⟨.tLDRpciASM, [.reg .r0, .imm 8] ++ Operand.always, 0xFFFFFFF8, 2⟩

theorem loadLiteral_wellFormed : WellFormed loadLiteral.opcode loadLiteral.operands := ⟨_, _, rfl, rfl, trivial⟩

/-- A callback that knows the addresses of the code memory and no others -/
def below (code : WordMemory 32) : CodeMemory := fun a n =>
  let bytes := (code.load (a.setWidth 32) n).take (2 ^ 32 - a.toNat)
  (bytes.length, bytes)

theorem below_serves (code : WordMemory 32) : Serves (below code) code := by
  intro a n h
  have hlength := WordMemory.length_load code (a.setWidth 32) n
  have htake : (code.load (a.setWidth 32) n).take (2 ^ 32 - a.toNat) = code.load (a.setWidth 32) n :=
    List.take_of_length_le (by omega)
  rw [below, htake, hlength]

theorem below_ends (code : WordMemory 32) : Ends (below code) code := fun _ _ _ => rfl

theorem exact_iff_loadLiteral : ∃ registers' m',
    effect (tLDRpciASM (below fun _ => 1)) loadLiteral zeroRegisters zeroMachine =
      some (loadLiteral.nextPc, registers', m') ∧
      (Exact (fun _ => 1) loadLiteral zeroRegisters registers' zeroMachine m' ↔
        LiteralZeroBehind (fun _ => 1) loadLiteral) := by
  have htranslator : instructionTranslator (below fun _ => 1) loadLiteral.opcode =
    some (tLDRpciASM (below fun _ => 1)) := rfl
  obtain ⟨registers', m', heffect, -, hexact⟩ :=
    exact_iff (below_serves _) (by decide) loadLiteral_wellFormed htranslator zeroRegisters_typed zeroMachine
  exact ⟨registers', m', heffect, hexact (below_ends _)⟩

/-- The register gets zero, because the address has more than 32 bits. -/
theorem not_exact : ¬∀ (inst : MCInst) (memory : CodeMemory) (code : WordMemory 32)
    (translator : MCInst → EmitM Successor) (registers : Registers) (m : Machine), Serves memory code →
    inst.opcode ∈ exactOpcodes → WellFormed inst.opcode inst.operands →
    instructionTranslator memory inst.opcode = some translator → registers.Typed → ∃ registers' m',
      effect translator inst registers m = some (inst.nextPc, registers', m') ∧
        Exact code inst registers registers' m m' := by
  intro h
  obtain ⟨registers', m', heffect, hexact⟩ := h loadLiteral (below fun _ => 1) (fun _ => 1)
    (tLDRpciASM (below fun _ => 1)) zeroRegisters zeroMachine (below_serves _) (by decide) loadLiteral_wellFormed rfl
    zeroRegisters_typed
  have hbinds : Binds .r0 (wordAt (fun _ => 1) (loadLiteral.literal 8)) zeroRegisters registers' zeroMachine m' := hexact
  have hrd := hbinds.rd
  cases heffect
  exact absurd hrd (by decide)

end Exactness

end Avatar.Translator
