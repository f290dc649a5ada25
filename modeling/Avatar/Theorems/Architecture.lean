import Avatar.Lib.Thumb
import Avatar.Theorems.Arithmetic
import Avatar.Theorems.CompareAndBranch
import Avatar.Theorems.LogicAndMemory
import Avatar.Theorems.PushLayout

/-! The original program: what its instructions do as the architecture defines them. The registers, flags and memory of
    the translated program stand for a state of the processor, and each translated instruction does to that state what the
    original one does if and only if it is `Faithful` there. -/

namespace Avatar.Translator
open Bytes EmitM

/-! ### Instructions -/

namespace Register

def core (r : Register) : Option Thumb.Register := coreRegisters.finIdxOf? r

def ofCore (r : Thumb.Register) : Register := coreRegisters.get r

theorem core_ofCore (r : Thumb.Register) : (ofCore r).core = some r := by
  revert r
  decide

end Register

def conditions : List Condition := [.eq, .ne, .hs, .lo, .mi, .pl, .vs, .vc, .hi, .ls, .ge, .lt, .gt, .le]

def condition (code : Int) : Option Condition := conditions.find? (condCode · = code)

def Operand.core : Operand → Option Thumb.Register
  | reg register => register.core
  | imm _ => none

/-- The instruction of the architecture. The disassembler counts the offsets of loads and stores in words or halfwords, and
    encodes a shift to the right by 32 places as zero. -/
def Opcode.thumb (opcode : Opcode) (operands : List Operand) : Option Thumb.Instr :=
  match opcode, operands with
  | .tADDi8, d :: _ :: n :: .imm x :: _ | .tADDi3, d :: _ :: n :: .imm x :: _ => do
    return .add (← d.core) (← n.core) (.immediate (BitVec.ofInt 32 x))
  | .tADDrr, d :: _ :: n :: m :: _ => do return .add (← d.core) (← n.core) (.register (← m.core))
  | .tSUBi8, d :: _ :: n :: .imm x :: _ => do return .sub (← d.core) (← n.core) (.immediate (BitVec.ofInt 32 x))
  | .tCMPr, n :: m :: _ => do return .cmp (← n.core) (.register (← m.core))
  | .tCMPi8, n :: .imm x :: _ => do return .cmp (← n.core) (.immediate (BitVec.ofInt 32 x))
  | .tMOVi8, d :: _ :: .imm x :: _ => do return .mov (← d.core) (BitVec.ofInt 32 x)
  | .tAND, d :: _ :: n :: m :: _ => do return .logical .and (← d.core) (← n.core) (← m.core)
  | .tORR, d :: _ :: n :: m :: _ => do return .logical .orr (← d.core) (← n.core) (← m.core)
  | .tBIC, d :: _ :: n :: m :: _ => do return .logical .bic (← d.core) (← n.core) (← m.core)
  | .tLSLri, d :: _ :: m :: .imm k :: _ => do return .lsl (← d.core) (← m.core) k.toNat
  | .tLSRri, d :: _ :: m :: .imm k :: _ => do return .lsr (← d.core) (← m.core) (if k = 0 then 32 else k.toNat)
  | .tLDRi, d :: n :: .imm x :: _ => do return .ldr (← d.core) (← n.core) (4 * BitVec.ofInt 32 x)
  | .tLDRHi, d :: n :: .imm x :: _ => do return .ldrh (← d.core) (← n.core) (2 * BitVec.ofInt 32 x)
  | .tSTRi, d :: n :: .imm x :: _ => do return .str (← d.core) (← n.core) (4 * BitVec.ofInt 32 x)
  | .tSTRHi, d :: n :: .imm x :: _ => do return .strh (← d.core) (← n.core) (2 * BitVec.ofInt 32 x)
  | .tLDRpciASM, d :: .imm x :: _ => do return .ldrLiteral (← d.core) (BitVec.ofInt 32 x)
  | .tPUSH, _ :: _ :: pushed => do return .push (← pushed.mapM (·.core))
  | .tB, .imm x :: _ => some (.b (BitVec.ofInt 32 x))
  | .tBcc, .imm x :: .imm code :: _ => do return .bCond (← condition code) (BitVec.ofInt 32 x)
  | _, _ => none

def MCInst.thumb (inst : MCInst) : Option Thumb.Instr := inst.opcode.thumb inst.operands

/-- The address that a branch leads to, in 64 bits -/
def MCInst.destination (inst : MCInst) : BitVec 64 :=
  match inst.operands with
  | .imm offset :: _ => inst.branchPc offset
  | _ => inst.nextPc

/-- The address of the next instruction, in 64 bits -/
def MCInst.wideNext (inst : MCInst) (flags : Flags) : Thumb.Instr → BitVec 64
  | .b _ => inst.destination
  | .bCond cond _ => if cond.holds flags then inst.destination else inst.nextPc
  | _ => inst.nextPc

/-- The word that a load relative to the program counter reads from the code memory at the time of the translation -/
def MCInst.embedded (inst : MCInst) (memory : CodeMemory) : BitVec 32 :=
  match inst.operands with
  | _ :: .imm offset :: _ => BitVec.ofNat 32 (ofLE (readBytes memory (literalAddress inst offset) 4).2)
  | _ => 0

/-! ### States -/

/-- A flag that has a value -/
def Registers.flag (registers : Registers) (id : Register) : Bool :=
  match registers id with
  | some (.i1 x) => x
  | _ => false

def Registers.flags (registers : Registers) : Flags :=
  ⟨registers.flag .flagZ, registers.flag .flagN, registers.flag .flagC, registers.flag .flagV⟩

/-- The state of the processor that the registers and flags, the memory and the program counter stand for -/
def architectural (registers : Registers) (m : Machine) (pc : BitVec 64) : Thumb.State where
  registers r := registers.word (.ofCore r)
  flags := registers.flags
  memory := m.memory
  pc := pc.setWidth 32

/-- The words that are pushed are the same in the reverse order. -/
def Reversible (s : Thumb.State) (registers : List Thumb.Register) : Prop :=
  (registers.map s.registers).reverse = registers.map s.registers

/-- The carry out of an addition is what the translation takes for it, the last bit that a shift moves out is the one that
    comes to its place, a word of the code is the one that was read at the time of the translation, and `stored` holds of
    the registers that are pushed. -/
def Kept (s : Thumb.State) (embedded : BitVec 32) (stored : List Thumb.Register → Prop) : Thumb.Instr → Prop
  | .add _ n x => (s.operand x).toNat ≤ (s.registers n).toNat ∨ 2 ^ 32 ≤ (s.registers n).toNat + (s.operand x).toNat
  | .lsl _ m places => CarryStays .tLSLri (s.registers m) places
  | .lsr _ m places => places = 32 ∨ CarryStays .tLSRri (s.registers m) places
  | .ldrLiteral _ offset => embedded = s.load (s.literal offset) 4
  | .push registers => stored registers
  | _ => True

/-- In a state the translated instruction does what the original one does, and the next address has 32 bits. -/
def Faithful (stored : Thumb.State → List Thumb.Register → Prop) (memory : CodeMemory) (inst : MCInst)
    (instr : Thumb.Instr) (s : Thumb.State) : Prop :=
  Kept s (inst.embedded memory) (stored s) instr ∧ (inst.wideNext s.flags instr).toNat < 2 ^ 32

/-! ### The effects on states -/

section States
variable {registers registers' : Registers} {m : Machine} {pc : BitVec 64} {d : Register} {r : Thumb.Register}
  {x : BitVec 32} {b : Bool}

@[simp] theorem architectural_registers (r : Thumb.Register) :
    (architectural registers m pc).registers r = registers.word (.ofCore r) := rfl

theorem registerType_ofCore (r : Thumb.Register) : registerType (.ofCore r) = some .i32 := by
  revert r
  decide

theorem ofCore_ne_flag (r : Thumb.Register) : Register.ofCore r ∉ flagRegisters := by
  revert r
  decide

theorem exists_ofCore_of_mem (h : d ∈ coreRegisters) : ∃ r, d = .ofCore r := by
  obtain ⟨i, hi, hget⟩ := List.getElem_of_mem h
  exact ⟨⟨i, hi⟩, hget.symm⟩

theorem Operand.IsLow.exists_core {operand : Operand} (h : operand.IsLow) :
    ∃ r, operand = .reg (.ofCore r) ∧ (Register.ofCore r).isLow = true := by
  obtain ⟨d, rfl, hd⟩ := h.exists_reg
  obtain ⟨r, rfl⟩ := exists_ofCore_of_mem (d := d) (by cases d <;> simp_all [Register.isLow, coreRegisters])
  exact ⟨r, rfl, hd⟩

@[simp] theorem Operand.core_reg_ofCore (r : Thumb.Register) : (reg (.ofCore r)).core = some r := Register.core_ofCore r

theorem Registers.Agree.architectural (h : registers.Agree registers') (m : Machine) (pc : BitVec 64) :
    architectural registers m pc = architectural registers' m pc := by
  have hflag (id : Register) (hid : (registerType id).isSome = true) : registers.flag id = registers'.flag id := by
    rw [flag, flag, h id hid]
  have hword (r : Thumb.Register) : registers.word (.ofCore r) = registers'.word (.ofCore r) := by
    rw [word, word, h _ (Option.isSome_of_eq_some (registerType_ofCore r))]
  simp only [Translator.architectural, flags, hword, hflag .flagZ rfl, hflag .flagN rfl, hflag .flagC rfl,
    hflag .flagV rfl]

theorem flags_set_core (r : Thumb.Register) : (registers.set (.ofCore r) (.i32 x)).flags = registers.flags := by
  have hflag (id : Register) (hid : id ∈ flagRegisters) :
      Registers.flag (registers.set (.ofCore r) (.i32 x)) id = registers.flag id := by
    have hne : id ≠ .ofCore r := fun heq => ofCore_ne_flag r (heq ▸ hid)
    rw [Registers.flag, Registers.set_of_ne hne, Registers.flag]
  rw [Registers.flags, hflag .flagZ (by simp [flagRegisters]), hflag .flagN (by simp [flagRegisters]),
    hflag .flagC (by simp [flagRegisters]), hflag .flagV (by simp [flagRegisters]), Registers.flags]

theorem architectural_set :
    architectural (registers.set (.ofCore r) (.i32 x)) m pc = (architectural registers m pc).write r x := by
  have hword : (fun i => Registers.word (registers.set (.ofCore r) (.i32 x)) (.ofCore i)) =
      Function.update (fun i => registers.word (.ofCore i)) r x := by
    funext i
    by_cases hi : i = r
    · rw [hi, Function.update_self, Registers.word, Registers.set_self]
    · have hne : Register.ofCore i ≠ .ofCore r := fun heq => hi <| by
        rw [← Option.some_inj, ← Register.core_ofCore, heq, Register.core_ofCore]
      rw [Function.update_of_ne hi, Registers.word, Registers.set_of_ne hne, Registers.word]
  rw [architectural, flags_set_core, hword]
  rfl

/-- A flag is no register. -/
theorem architectural_set_flag {id : Register} (hid : id ∈ flagRegisters) : architectural (registers.set id (.i1 b)) m pc =
    (architectural registers m pc).setFlags (registers.set id (.i1 b)).flags := by
  have hword (i : Thumb.Register) : Registers.word (registers.set id (.i1 b)) (.ofCore i) = registers.word (.ofCore i) := by
    have hne : Register.ofCore i ≠ id := fun heq => ofCore_ne_flag i (heq.symm ▸ hid)
    rw [Registers.word, Registers.set_of_ne hne, Registers.word]
  simp only [architectural, hword]
  rfl

theorem architectural_setZN : architectural ((registers.set .flagZ (.i1 (x == 0))).set .flagN (.i1 x.msb)) m pc =
    (architectural registers m pc).setZN x := by
  rw [architectural_set_flag (by simp [flagRegisters]), architectural_set_flag (by simp [flagRegisters])]
  rfl

theorem architectural_setZNC : architectural (registers.setZNC (x == 0) x.msb b) m pc =
    (architectural registers m pc).setZNC x b := by
  rw [Registers.setZNC, architectural_set_flag (by simp [flagRegisters]), architectural_setZN]
  rfl

theorem architectural_setFlags (flags : Flags) : architectural (registers.setFlags flags) m pc =
    (architectural registers m pc).setFlags flags := by
  rw [Registers.setFlags, Registers.setZNC, architectural_set_flag (by simp [flagRegisters]),
    architectural_set_flag (by simp [flagRegisters]), architectural_set_flag (by simp [flagRegisters]),
    architectural_set_flag (by simp [flagRegisters])]
  rfl

end States

/-! ### One instruction -/

section Instructions
variable {inst : MCInst} {memory : CodeMemory} {translator : MCInst → EmitM Successor} {instr : Thumb.Instr}
  {registers registers' : Registers} {m m' : Machine} {pc : BitVec 64} {d : Thumb.Register} {x : BitVec 32}
  {id : Register}

theorem Binds.architectural (h : Binds (.ofCore d) x registers registers' m m') :
    architectural registers' m' pc = (Translator.architectural registers m pc).write d x := by
  have hagree : registers'.Agree (registers.set (.ofCore d) (.i32 x)) := by
    intro id hid
    by_cases heq : id = .ofCore d
    · rw [heq, Registers.set_self, h.rd]
    · rw [Registers.set_of_ne heq, h.others id hid (List.mem_singleton.not.mpr heq)]
  rw [h.machine, hagree.architectural, architectural_set]

theorem BindsFlags.architectural (h : BindsFlags (.ofCore d) x registers registers' m m') :
    architectural registers' m' pc = ((Translator.architectural registers m pc).write d x).setZN x := by
  have hagree : registers'.Agree
      (((registers.set (.ofCore d) (.i32 x)).set .flagZ (.i1 (x == 0))).set .flagN (.i1 x.msb)) := by
    intro id hid
    by_cases hn : id = .flagN
    · rw [hn, Registers.set_self, h.n, BitVec.msb_eq_getLsbD_last]
    by_cases hz : id = .flagZ
    · rw [hz, Registers.set_of_ne (by simp), Registers.set_self, h.z]
      rfl
    by_cases hd : id = .ofCore d
    · rw [Registers.set_of_ne hn, Registers.set_of_ne hz, hd, Registers.set_self, h.rd]
    · rw [Registers.set_of_ne hn, Registers.set_of_ne hz, Registers.set_of_ne hd, h.others id hid (by simp [*])]
  rw [h.machine, hagree.architectural, architectural_setZN, architectural_set]

theorem Stores.architectural {a : BitVec 32} {bytes : List Byte} (h : Stores a bytes registers registers' m m') :
    architectural registers' m' pc = (Translator.architectural registers m pc).store a bytes := by
  have hagree : registers'.Agree registers := fun id hid => h.registers id hid List.not_mem_nil
  rw [hagree.architectural]
  simp only [Translator.architectural, Thumb.State.store, h.memory]

/-- The translated instruction goes on at the next address, and does what the original one does if and only if what it
    needs is kept. -/
def Performs (memory : CodeMemory) (inst : MCInst) (translator : MCInst → EmitM Successor) (instr : Thumb.Instr)
    (registers : Registers) (m : Machine) : Prop :=
  ∃ registers' m', effect translator inst registers m = some (inst.wideNext registers.flags instr, registers', m') ∧
    (architectural registers' m' inst.pc = instr.execute (architectural registers m inst.pc) ↔
      Kept (architectural registers m inst.pc) (inst.embedded memory) (Reversible (architectural registers m inst.pc))
        instr)

theorem Performs.of_eq (heffect : effect translator inst registers m =
      some (inst.wideNext registers.flags instr, registers', m'))
    (hexecute : architectural registers' m' inst.pc = instr.execute (architectural registers m inst.pc))
    (hkept : Kept (architectural registers m inst.pc) (inst.embedded memory)
      (Reversible (architectural registers m inst.pc)) instr) :
    Performs memory inst translator instr registers m :=
  ⟨registers', m', heffect, iff_of_true hexecute hkept⟩

/-- States that differ in their flags only -/
theorem setFlags_inj {s : Thumb.State} {flags flags' : Flags} : s.setFlags flags = s.setFlags flags' ↔ flags = flags' :=
  ⟨fun h => congrArg Thumb.State.flags h, fun h => h ▸ rfl⟩

/-- States that differ in one register only -/
theorem write_inj {s : Thumb.State} {x y : BitVec 32} : s.write d x = s.write d y ↔ x = y := by
  refine ⟨fun h => ?_, fun h => h ▸ rfl⟩
  have hregister := congrArg (fun s => s.registers d) h
  simpa [Thumb.State.write] using hregister

theorem performs_addition (hopcode : inst.opcode = .tADDi8 ∨ inst.opcode = .tADDi3 ∨ inst.opcode = .tADDrr)
    (h : WellFormed inst.opcode inst.operands)
    (htranslator : instructionTranslator memory inst.opcode = some translator) {n : Thumb.Register} {x : Operand}
    {y : Thumb.Operand}
    (hoperands : inst.operands = [.reg (.ofCore d), .reg .cpsr, .reg (.ofCore n), x] ++ Operand.always)
    (hy : (architectural registers m inst.pc).operand y = registers.operand x) (htyped : registers.Typed) :
    Performs memory inst translator (.add d n y) registers m := by
  obtain ⟨-, registers', heffect, hagree⟩ := effect_addition hopcode h htranslator hoperands htyped m
  refine ⟨registers', m, heffect, ?_⟩
  rw [hagree.architectural, architectural_setFlags, architectural_set]
  simp only [Thumb.Instr.execute, Kept, hy, architectural_registers, setFlags_inj]
  refine Iff.trans ?_ addFlags_c_eq_iff
  refine ⟨fun h => congrArg Flags.c h, fun h => ?_⟩
  rw [addFlags] at h ⊢
  exact congrArg (fun c => { Flags.ofAdd (registers.word (.ofCore n)) (registers.operand x) with c }) h

theorem performs_shift {rd : BitVec 32} {c b : Bool}
    (heffect : ∃ registers', effect translator inst registers m = some (inst.nextPc, registers', m) ∧
      registers'.Agree ((registers.set (.ofCore d) (.i32 rd)).setZNC (rd == 0) rd.msb c))
    (hnext : inst.wideNext registers.flags instr = inst.nextPc)
    (hexecute : instr.execute (architectural registers m inst.pc) =
      ((architectural registers m inst.pc).write d rd).setZNC rd b)
    (hkept : Kept (architectural registers m inst.pc) (inst.embedded memory)
      (Reversible (architectural registers m inst.pc)) instr ↔ b = c) :
    Performs memory inst translator instr registers m := by
  obtain ⟨registers', heffect, hagree⟩ := heffect
  refine ⟨registers', m, hnext ▸ heffect, ?_⟩
  rw [hagree.architectural, architectural_setZNC, architectural_set, hexecute, hkept, Thumb.State.setZNC,
    Thumb.State.setZNC, setFlags_inj]
  exact ⟨fun h => (congrArg Flags.c h).symm, fun h => h ▸ rfl⟩

theorem performs_tLSLri {k : Nat} {n : Thumb.Register}
    (hoperands : inst.operands = [.reg (.ofCore d), .reg .cpsr, .reg (.ofCore n), .imm k] ++ Operand.always)
    (hn : (Register.ofCore n).isLow = true) (hk : 0 < k) (hk' : k < 32) (htyped : registers.Typed) :
    Performs memory inst tLSLri (.lsl d n k) registers m := by
  refine performs_shift (effect_tLSLri hoperands hn hk hk' htyped m) rfl rfl ?_
  rw [Kept, CarryStays, if_pos rfl, bit_of_shl hk hk']
  rfl

theorem performs_tLSRri {k : Nat} {n : Thumb.Register}
    (hoperands : inst.operands = [.reg (.ofCore d), .reg .cpsr, .reg (.ofCore n), .imm k] ++ Operand.always)
    (hn : (Register.ofCore n).isLow = true) (hk' : k < 32) (htyped : registers.Typed) :
    Performs memory inst tLSRri (.lsr d n (if k = 0 then 32 else k)) registers m := by
  rcases Nat.eq_zero_or_pos k with rfl | hk
  · have hzero : registers.word (.ofCore n) >>> 32 = 0 := by
      rw [← BitVec.toNat_inj, BitVec.toNat_ushiftRight, Nat.shiftRight_eq_div_pow, Nat.div_eq_of_lt (BitVec.isLt _)]
      rfl
    rw [if_pos rfl]
    refine performs_shift (b := (registers.word (.ofCore n)).getLsbD 31) (effect_tLSRri_zero hoperands hn htyped m) rfl
      ?_ (iff_of_true (.inl rfl) (BitVec.msb_eq_getLsbD_last _).symm)
    rw [Thumb.Instr.execute, architectural_registers, hzero]
  · rw [if_neg (Nat.ne_of_gt hk)]
    refine performs_shift (effect_tLSRri hoperands hn hk hk' htyped m) rfl rfl ?_
    rw [Kept, CarryStays, if_neg (by simp), if_neg (Nat.ne_of_gt hk), bit_of_shr hk, or_iff_right (Nat.ne_of_lt hk')]
    rfl

/-- A comparison, whose code sets a register first or none -/
theorem performs_comparison {start : Values} {lhs rhs : Value} {a b : BitVec 32}
    (he : translator inst ⟨[], initialValues⟩ = some (.fallThrough, ⟨[], compareValues lhs rhs start⟩))
    (hl : lhs.eval ⟨registers, []⟩ = some (.i32 a)) (hr : rhs.eval ⟨registers, []⟩ = some (.i32 b))
    {s : Thumb.State} (hstart : architectural (start.read ⟨registers, []⟩) m inst.pc = s)
    (hnext : inst.wideNext registers.flags instr = inst.nextPc)
    (hexecute : instr.execute (architectural registers m inst.pc) = s.setFlags (Flags.ofSub a b))
    (hkept : Kept (architectural registers m inst.pc) (inst.embedded memory)
      (Reversible (architectural registers m inst.pc)) instr) :
    Performs memory inst translator instr registers m := by
  refine .of_eq (hnext ▸ effect_of_values he registers m) ?_ hkept
  rw [read_compareValues hl hr, architectural_setFlags, hstart, hexecute]

theorem architectural_initial (registers : Registers) (m : Machine) (pc : BitVec 64) :
    architectural (initialValues.read ⟨registers, []⟩) m pc = architectural registers m pc :=
  (agree_read_initialValues registers []).architectural m pc

/-! #### Pushes -/

theorem ascending_of_sublist {pushed : List Thumb.Register} (h : pushed.Sublist (List.finRange 15)) :
    Thumb.ascending pushed = pushed := by
  have hsorted : (Thumb.ascending pushed).Pairwise (· < ·) := (List.pairwise_lt_finRange 15).filter _
  refine hsorted.eq_of_mem_iff ((List.pairwise_lt_finRange 15).sublist h) fun r => ?_
  simp [Thumb.ascending]

theorem exists_pushed {pushed : List Register} (h : pushed.Sublist coreRegisters) :
    ∃ rs : List Thumb.Register, pushed = rs.map .ofCore ∧ Thumb.ascending rs = rs := by
  have hcore : coreRegisters = (List.finRange 15).map .ofCore := by decide
  rw [hcore] at h
  obtain ⟨rs, hrs, rfl⟩ := List.sublist_map_iff.mp h
  exact ⟨rs, rfl, ascending_of_sublist hrs⟩

theorem mapM_core (rs : List Thumb.Register) :
    ((rs.map Register.ofCore).map Operand.reg).mapM (·.core) = some rs := by
  induction rs with
  | nil => rfl
  | cons r rs ih =>
    rw [List.map_cons, List.map_cons, List.mapM_cons, Operand.core_reg_ofCore, ih]
    rfl

theorem performs_tPUSH {rs : List Thumb.Register}
    (hoperands : inst.operands = Operand.always ++ (rs.map Register.ofCore).map .reg) (hne : rs ≠ [])
    (hascending : Thumb.ascending rs = rs) (htyped : registers.Typed) :
    Performs memory inst tPUSH (.push rs) registers m := by
  obtain ⟨registers', heffect, hagree⟩ := effect_tPUSH hoperands (mt List.map_eq_nil_iff.mp hne) (fun r hr => by
    obtain ⟨i, -, rfl⟩ := List.mem_map.mp hr
    exact registerType_ofCore i) htyped m
  let s := architectural registers m inst.pc
  have hlength : 4 * (rs.map s.registers).length ≤ 2 ^ 32 := by
    have hle : (Thumb.ascending rs).length ≤ 15 :=
      (List.length_filter_le _ _).trans_eq (List.length_finRange ..)
    rw [List.length_map, ← hascending]
    omega
  have hwords : (rs.map Register.ofCore).map registers.word = rs.map s.registers := by
    rw [List.map_map]
    rfl
  have hbytes : s.bytes rs = (rs.map s.registers).flatMap fun word => toLE 4 word.toNat := by
    rw [List.flatMap_map]
    rfl
  let bottom := s.registers .sp - 4 * BitVec.ofNat 32 rs.length
  have hstate : architectural registers' (m.pushWords (registers.word .sp) (rs.map s.registers)) inst.pc =
      (s.store bottom ((rs.map s.registers).reverse.flatMap fun word => toLE 4 word.toNat)).write .sp bottom := by
    rw [List.length_map] at hagree
    rw [hagree.architectural, show Register.sp = .ofCore .sp from rfl, architectural_set, architectural,
      Ssa.Machine.pushWords_memory hlength, List.length_map]
    rfl
  refine ⟨registers', _, heffect, ?_⟩
  rw [hwords, hstate, Thumb.Instr.execute, hascending, hbytes, Kept, Reversible]
  constructor
  · intro h
    refine Ssa.Machine.flatMap_toLE_injective ?_
    have hmemory := congrArg Thumb.State.memory h
    refine (WordMemory.store_inj s.memory bottom ?_ ?_).mp hmemory
    · simp
    · rwa [Ssa.Machine.length_flatMap_toLE, List.length_reverse]
  · intro h
    rw [h]

/-! #### Branches -/

theorem Registers.Typed.hasFlags (htyped : registers.Typed) : registers.HasFlags registers.flags := by
  have hflag (id : Register) (hid : registerType id = some .i1) : registers id = some (.i1 (registers.flag id)) := by
    obtain ⟨_, hx, hty⟩ := htyped id .i1 hid
    obtain ⟨x, rfl⟩ := hty.i1_inv
    rw [Registers.flag, hx]
  exact ⟨hflag _ rfl, hflag _ rfl, hflag _ rfl, hflag _ rfl⟩

theorem exists_condition {code : Int} (h : 0 ≤ code) (h' : code < 14) :
    ∃ cond, condition code = some cond ∧ condCode cond = code := by
  interval_cases code <;> exact ⟨_, rfl, rfl⟩

theorem emission_tB {offset : Int} (hoperands : inst.operands = .imm offset :: Operand.always) :
    tB inst ⟨[], initialValues⟩ = some (.jump offset, ⟨[], initialValues⟩) := by
  have hget (i : Nat) := congrArg (fun operands => operands[i]?) hoperands
  simp only [tB, bind_apply, assertAlways_apply (hget 1) (hget 2), getImm_apply (hget 0), Option.bind_some]
  rfl

theorem performs_branch {successor : Successor}
    (he : translator inst ⟨[], initialValues⟩ = some (successor, ⟨[], initialValues⟩))
    (hnext : successor.nextPc inst initialValues ⟨registers, []⟩ = some (inst.wideNext registers.flags instr))
    (hexecute : instr.execute (architectural registers m inst.pc) = architectural registers m inst.pc)
    (hkept : Kept (architectural registers m inst.pc) (inst.embedded memory)
      (Reversible (architectural registers m inst.pc)) instr) :
    Performs memory inst translator instr registers m := by
  have heffect : effect translator inst registers m =
      some (inst.wideNext registers.flags instr, initialValues.read ⟨registers, []⟩, m) := by
    simp only [effect, he, Ssa.execAll, List.foldlM_nil, hnext, Option.bind_eq_bind, Option.bind_some, Option.pure_def]
    rfl
  exact .of_eq heffect (by rw [architectural_initial, hexecute]) hkept

theorem performs_tBcc {offset : Int} {cond : Condition}
    (hoperands : inst.operands = [.imm offset, .imm (condCode cond), .reg .cpsr]) (htyped : registers.Typed)
    (x : BitVec 32) : Performs memory inst tBcc (.bCond cond x) registers m := by
  obtain ⟨val, hval, heval⟩ := eval_getCondition htyped.hasFlags cond
  refine performs_branch (emission_tBcc hoperands) ?_ rfl trivial
  simp only [Successor.nextPc, hval, heval, Option.join_some, Option.bind_eq_bind, Option.bind_some, MCInst.wideNext,
    MCInst.destination, hoperands]

/-! #### All instructions -/

-- The equations are found once, and not by every proof on its own.
attribute [local simp] Opcode.thumb

theorem thumb_eq {opcode : Opcode} {operands : List Operand} (hop : inst.opcode = opcode)
    (hoperands : inst.operands = operands) : inst.thumb = opcode.thumb operands := by
  rw [MCInst.thumb, hop, hoperands]

theorem eval_not {env : Ssa.Env Register (Nat × Argument)} {v : Value} (h : v.eval env = some (.i32 x)) :
    Ssa.Value.eval env (.not v) = some (.i32 (~~~x)) := by
  rw [Ssa.Value.eval, h]

/-- The instruction is one of the architecture, and the translated one performs it. -/
def Translates (memory : CodeMemory) (inst : MCInst) (translator : MCInst → EmitM Successor) (registers : Registers)
    (m : Machine) : Prop :=
  ∃ instr, inst.thumb = some instr ∧ Performs memory inst translator instr registers m

theorem translates_logical (op : Thumb.LogicalOp) {emit : Value → Value → Value}
    (hthumb : ∀ d n r : Thumb.Register, inst.opcode.thumb
      ([.reg (.ofCore d), .reg .cpsr, .reg (.ofCore n), .reg (.ofCore r)] ++ Operand.always) = some (.logical op d n r))
    (h : ∃ d n r, inst.operands = [d, .reg .cpsr, n, r] ++ Operand.always ∧ d.IsLow ∧ n.IsLow ∧ r.IsLow)
    (heval : ∀ {env : Ssa.Env Register (Nat × Argument)} {v w : Value} {x y : BitVec 32}, v.eval env = some (.i32 x) →
      w.eval env = some (.i32 y) → (emit v w).eval env = some (.i32 (op.apply x y))) (htyped : registers.Typed) :
    Translates memory inst (logical · emit) registers m := by
  obtain ⟨_, _, _, hoperands, hd, hn, hr⟩ := h
  obtain ⟨d, rfl, hd⟩ := hd.exists_core
  obtain ⟨n, rfl, hn⟩ := hn.exists_core
  obtain ⟨r, rfl, hr⟩ := hr.exists_core
  obtain ⟨registers', heffect, hbinds⟩ := effect_logical emit hoperands hd hn hr
    (heval (eval_phi htyped hn []) (eval_phi htyped hr [])) m
  exact ⟨_, (thumb_eq rfl hoperands).trans (hthumb d n r), .of_eq heffect hbinds.architectural trivial⟩

theorem translates_transfer (hop : inst.opcode ∈ [.tLDRi, .tLDRHi, .tSTRi, .tSTRHi])
    (h : ∃ d n i, inst.operands = [d, n, i] ++ Operand.always ∧ d.IsLow ∧ n.IsLow ∧ i.IsImm)
    (htranslator : instructionTranslator memory inst.opcode = some translator) (htyped : registers.Typed) :
    Translates memory inst translator registers m := by
  obtain ⟨_, _, _, hoperands, hd, hn, hi⟩ := h
  obtain ⟨d, rfl, hd⟩ := hd.exists_core
  obtain ⟨n, rfl, hn⟩ := hn.exists_core
  obtain ⟨imm, rfl⟩ := hi.exists_imm
  generalize hopcode : inst.opcode = opcode at hop htranslator
  have hthumb := thumb_eq hopcode hoperands
  cases opcode
  case tLDRi =>
    cases htranslator
    obtain ⟨registers', heffect, hbinds⟩ := effect_tLDRi hoperands hd hn htyped m
    exact ⟨.ldr d n (4 * BitVec.ofInt 32 imm), hthumb.trans (by simp),
      .of_eq heffect hbinds.architectural trivial⟩
  case tLDRHi =>
    cases htranslator
    obtain ⟨registers', heffect, hbinds⟩ := effect_tLDRHi hoperands hd hn htyped m
    exact ⟨.ldrh d n (2 * BitVec.ofInt 32 imm), hthumb.trans (by simp),
      .of_eq heffect hbinds.architectural trivial⟩
  case tSTRi =>
    cases htranslator
    obtain ⟨registers', m', heffect, hstores⟩ := effect_tSTRi hoperands hd hn htyped m
    exact ⟨.str d n (4 * BitVec.ofInt 32 imm), hthumb.trans (by simp),
      .of_eq heffect hstores.architectural trivial⟩
  case tSTRHi =>
    cases htranslator
    obtain ⟨registers', m', heffect, hstores⟩ := effect_tSTRHi hoperands hd hn htyped m
    exact ⟨.strh d n (2 * BitVec.ofInt 32 imm), hthumb.trans (by simp),
      .of_eq heffect hstores.architectural trivial⟩
  all_goals simp at hop

theorem translates_tMOVi8 (hop : inst.opcode = .tMOVi8) (h : WellFormed .tMOVi8 inst.operands) :
    Translates memory inst tMOVi8 registers m := by
  obtain ⟨_, _, hoperands, hd, hi⟩ := h
  obtain ⟨d, rfl, hd⟩ := hd.exists_core
  obtain ⟨imm, rfl⟩ := hi.exists_imm
  obtain ⟨registers', heffect, hbinds⟩ := effect_logicalValues hd (emission_tMOVi8 hoperands) (eval_int32 imm) m
  exact ⟨.mov d (BitVec.ofInt 32 imm), (thumb_eq hop hoperands).trans (by simp),
    .of_eq heffect hbinds.architectural trivial⟩

theorem translates_tLDRpciASM (hop : inst.opcode = .tLDRpciASM) (h : WellFormed .tLDRpciASM inst.operands) :
    Translates memory inst (tLDRpciASM memory) registers m := by
  obtain ⟨_, _, hoperands, hd, hi⟩ := h
  obtain ⟨d, rfl, hd⟩ := hd.exists_core
  obtain ⟨offset, rfl⟩ := hi.exists_imm
  obtain ⟨registers', heffect, hbinds⟩ := effect_set (m := m) hd (emission_tLDRpciASM memory hoperands) rfl
    (eval_int32 _)
  refine ⟨.ldrLiteral d (BitVec.ofInt 32 offset), (thumb_eq hop hoperands).trans (by simp), registers', m,
    heffect, ?_⟩
  have hembedded : inst.embedded memory =
      BitVec.ofNat 32 (ofLE (readBytes memory (literalAddress inst offset) 4).2) := by
    simp [MCInst.embedded, hoperands]
  rw [hbinds.architectural, Kept, hembedded]
  exact write_inj

theorem translates_tCMPr (hop : inst.opcode = .tCMPr) (h : WellFormed .tCMPr inst.operands) (htyped : registers.Typed) :
    Translates memory inst tCMPr registers m := by
  obtain ⟨_, _, hoperands, hn, hr⟩ := h
  obtain ⟨n, rfl, hn⟩ := hn.exists_core
  obtain ⟨r, rfl, hr⟩ := hr.exists_core
  exact ⟨.cmp n (.register r), (thumb_eq hop hoperands).trans (by simp),
    performs_comparison (emission_tCMPr hoperands hn hr) (eval_phi htyped hn []) (eval_phi htyped hr [])
      (architectural_initial ..) rfl rfl trivial⟩

theorem translates_tCMPi8 (hop : inst.opcode = .tCMPi8) (h : WellFormed .tCMPi8 inst.operands) (htyped : registers.Typed) :
    Translates memory inst tCMPi8 registers m := by
  obtain ⟨_, _, hoperands, hn, hi⟩ := h
  obtain ⟨n, rfl, hn⟩ := hn.exists_core
  obtain ⟨imm, rfl⟩ := hi.exists_imm
  exact ⟨.cmp n (.immediate (BitVec.ofInt 32 imm)), (thumb_eq hop hoperands).trans (by simp),
    performs_comparison (emission_tCMPi8 hoperands hn) (eval_phi htyped hn []) (eval_int32 imm)
      (architectural_initial ..) rfl rfl trivial⟩

theorem translates_tSUBi8 (hop : inst.opcode = .tSUBi8) (h : WellFormed .tSUBi8 inst.operands) (htyped : registers.Typed) :
    Translates memory inst tSUBi8 registers m := by
  obtain ⟨_, _, _, hoperands, hd, hn, hi⟩ := h
  obtain ⟨d, rfl, hd⟩ := hd.exists_core
  obtain ⟨n, rfl, hn⟩ := hn.exists_core
  obtain ⟨imm, rfl⟩ := hi.exists_imm
  have hsub := eval_binary .sub (eval_phi htyped hn []) (eval_int32 imm) rfl
  refine ⟨.sub d n (.immediate (BitVec.ofInt 32 imm)), (thumb_eq hop hoperands).trans (by simp),
    performs_comparison (emission_tSUBi8 hoperands hn) (eval_phi htyped hn []) (eval_int32 imm) ?_ rfl rfl trivial⟩
  rw [Values.read_set hsub, architectural_set, architectural_initial]
  rfl

theorem translates_addition_immediate (hop : inst.opcode = .tADDi8 ∨ inst.opcode = .tADDi3)
    (h : WellFormed .tADDi8 inst.operands) (htranslator : instructionTranslator memory inst.opcode = some translator)
    (htyped : registers.Typed) : Translates memory inst translator registers m := by
  have hopcode : inst.opcode = .tADDi8 ∨ inst.opcode = .tADDi3 ∨ inst.opcode = .tADDrr := hop.imp_right .inl
  have hwellFormed : WellFormed inst.opcode inst.operands := by rcases hop with hop | hop <;> rwa [hop]
  obtain ⟨_, _, _, hoperands, hd, hn, hi⟩ := h
  obtain ⟨d, rfl, hd⟩ := hd.exists_core
  obtain ⟨n, rfl, hn⟩ := hn.exists_core
  obtain ⟨imm, rfl⟩ := hi.exists_imm
  refine ⟨.add d n (.immediate (BitVec.ofInt 32 imm)), ?_,
    performs_addition hopcode hwellFormed htranslator hoperands rfl htyped⟩
  rcases hop with hop | hop <;> exact (thumb_eq hop hoperands).trans (by simp)

theorem translates_tADDrr (hop : inst.opcode = .tADDrr) (h : WellFormed .tADDrr inst.operands)
    (htranslator : instructionTranslator memory inst.opcode = some translator) (htyped : registers.Typed) :
    Translates memory inst translator registers m := by
  have hwellFormed : WellFormed inst.opcode inst.operands := by rwa [hop]
  obtain ⟨_, _, _, hoperands, hd, hn, hr⟩ := h
  obtain ⟨d, rfl, hd⟩ := hd.exists_core
  obtain ⟨n, rfl, hn⟩ := hn.exists_core
  obtain ⟨r, rfl, hr⟩ := hr.exists_core
  exact ⟨.add d n (.register r), (thumb_eq hop hoperands).trans (by simp),
    performs_addition (.inr (.inr hop)) hwellFormed htranslator hoperands rfl htyped⟩

theorem translates_tLSLri (hop : inst.opcode = .tLSLri) (h : WellFormed .tLSLri inst.operands) (htyped : registers.Typed) :
    Translates memory inst tLSLri registers m := by
  obtain ⟨_, _, _, hoperands, hd, hn, himm, himm'⟩ := h
  obtain ⟨d, rfl, hd⟩ := hd.exists_core
  obtain ⟨n, rfl, hn⟩ := hn.exists_core
  obtain ⟨k, rfl⟩ := Int.eq_ofNat_of_zero_le (Int.le_of_lt himm)
  exact ⟨.lsl d n k, (thumb_eq hop hoperands).trans (by simp),
    performs_tLSLri hoperands hn (by omega) (by omega) htyped⟩

theorem translates_tLSRri (hop : inst.opcode = .tLSRri) (h : WellFormed .tLSRri inst.operands) (htyped : registers.Typed) :
    Translates memory inst tLSRri registers m := by
  obtain ⟨_, _, _, hoperands, hd, hn, himm, himm'⟩ := h
  obtain ⟨d, rfl, hd⟩ := hd.exists_core
  obtain ⟨n, rfl, hn⟩ := hn.exists_core
  obtain ⟨k, rfl⟩ := Int.eq_ofNat_of_zero_le himm
  exact ⟨.lsr d n (if k = 0 then 32 else k), (thumb_eq hop hoperands).trans (by simp),
    performs_tLSRri hoperands hn (by omega) htyped⟩

/-- The registers that a `PUSH` lists -/
theorem exists_rs (hop : inst.opcode = .tPUSH) (h : WellFormed .tPUSH inst.operands)
    (hpushed : ∃ pushed : List Register, inst.operands = Operand.always ++ pushed.map .reg ∧ pushed.Sublist coreRegisters) :
    ∃ rs : List Thumb.Register, inst.operands = Operand.always ++ (rs.map Register.ofCore).map .reg ∧ rs ≠ [] ∧
      Thumb.ascending rs = rs ∧ inst.thumb = some (.push rs) := by
  obtain ⟨pushed, hoperands, hsublist⟩ := hpushed
  obtain ⟨rs, rfl, hascending⟩ := exists_pushed hsublist
  obtain ⟨others, hne, -, hothers⟩ := h
  refine ⟨rs, hoperands, ?_, hascending, (thumb_eq hop hoperands).trans ?_⟩
  · rintro rfl
    rw [hoperands, List.append_cancel_left_eq] at hothers
    exact hne (List.map_eq_nil_iff.mp hothers.symm)
  · show Option.bind (((rs.map Register.ofCore).map Operand.reg).mapM (·.core)) _ = _
    rw [mapM_core]
    rfl

theorem translates_tPUSH (hop : inst.opcode = .tPUSH) (h : WellFormed .tPUSH inst.operands)
    (hpushed : ∃ pushed : List Register, inst.operands = Operand.always ++ pushed.map .reg ∧ pushed.Sublist coreRegisters)
    (htyped : registers.Typed) : Translates memory inst tPUSH registers m := by
  obtain ⟨rs, hoperands, hrs, hascending, hthumb⟩ := exists_rs hop h hpushed
  exact ⟨.push rs, hthumb, performs_tPUSH hoperands hrs hascending htyped⟩

theorem translates_tB (hop : inst.opcode = .tB) (h : WellFormed .tB inst.operands) :
    Translates memory inst tB registers m := by
  obtain ⟨_, hoperands, hi⟩ := h
  obtain ⟨offset, rfl⟩ := hi.exists_imm
  refine ⟨.b (BitVec.ofInt 32 offset), (thumb_eq hop hoperands).trans (by simp),
    performs_branch (emission_tB hoperands) ?_ rfl trivial⟩
  simp only [Successor.nextPc, MCInst.wideNext, MCInst.destination, hoperands]

theorem translates_tBcc (hop : inst.opcode = .tBcc) (h : WellFormed .tBcc inst.operands) (htyped : registers.Typed) :
    Translates memory inst tBcc registers m := by
  obtain ⟨_, code, hoperands, hi, hcode, hcode'⟩ := h
  obtain ⟨offset, rfl⟩ := hi.exists_imm
  obtain ⟨cond, hcond, rfl⟩ := exists_condition hcode hcode'
  exact ⟨.bCond cond (BitVec.ofInt 32 offset), (thumb_eq hop hoperands).trans (by simp [hcond]),
    performs_tBcc hoperands htyped _⟩

/-- Every instruction that has a translator -/
theorem translates (hwellFormed : WellFormed inst.opcode inst.operands)
    (hpushed : inst.opcode = .tPUSH → ∃ pushed : List Register,
      inst.operands = Operand.always ++ pushed.map .reg ∧ pushed.Sublist coreRegisters)
    (htranslator : instructionTranslator memory inst.opcode = some translator) (htyped : registers.Typed) (m : Machine) :
    Translates memory inst translator registers m := by
  generalize hop : inst.opcode = opcode at hwellFormed hpushed htranslator
  cases opcode
  case tLDRi | tLDRHi | tSTRi | tSTRHi =>
    exact translates_transfer (by simp [hop]) hwellFormed (hop ▸ htranslator) htyped
  case tADDi8 => exact translates_addition_immediate (.inl hop) hwellFormed (hop ▸ htranslator) htyped
  case tADDi3 => exact translates_addition_immediate (.inr hop) hwellFormed (hop ▸ htranslator) htyped
  case tADDrr => exact translates_tADDrr hop hwellFormed (hop ▸ htranslator) htyped
  all_goals cases htranslator
  case tAND =>
    exact translates_logical .and (fun _ _ _ => by simp [hop]) hwellFormed
      (fun hv hw => eval_binary .and hv hw rfl) htyped
  case tORR =>
    exact translates_logical .orr (fun _ _ _ => by simp [hop]) hwellFormed
      (fun hv hw => eval_binary .or hv hw rfl) htyped
  case tBIC =>
    exact translates_logical .bic (fun _ _ _ => by simp [hop]) hwellFormed
      (fun hv hw => eval_binary .and hv (eval_not hw) rfl) htyped
  case tMOVi8 => exact translates_tMOVi8 hop hwellFormed
  case tLDRpciASM => exact translates_tLDRpciASM hop hwellFormed
  case tCMPr => exact translates_tCMPr hop hwellFormed htyped
  case tCMPi8 => exact translates_tCMPi8 hop hwellFormed htyped
  case tSUBi8 => exact translates_tSUBi8 hop hwellFormed htyped
  case tLSLri => exact translates_tLSLri hop hwellFormed htyped
  case tLSRri => exact translates_tLSRri hop hwellFormed htyped
  case tPUSH => exact translates_tPUSH hop hwellFormed (hpushed rfl) htyped
  case tB => exact translates_tB hop hwellFormed
  case tBcc => exact translates_tBcc hop hwellFormed htyped

end Instructions

/-! ### The next address -/

theorem setWidth_ofInt (i : Int) : (BitVec.ofInt 64 i).setWidth 32 = BitVec.ofInt 32 i := by
  rw [← BitVec.toNat_inj, BitVec.toNat_setWidth, BitVec.toNat_ofInt, BitVec.toNat_ofInt]
  omega

theorem eq_of_thumb {inst : MCInst} {instr : Thumb.Instr} {offset : BitVec 32} (h : inst.thumb = some instr)
    (hbranch : instr = .b offset ∨ ∃ cond, instr = .bCond cond offset) :
    ∃ (imm : Int) (rest : List Operand), inst.operands = .imm imm :: rest ∧ offset = BitVec.ofInt 32 imm := by
  unfold MCInst.thumb Opcode.thumb at h
  split at h
  all_goals
    rcases hbranch with rfl | ⟨cond, rfl⟩
    all_goals simp [Option.bind_eq_some_iff] at h
  · exact ⟨_, _, ‹_›, h.symm⟩
  · exact ⟨_, _, ‹_›, h.2.symm⟩

theorem opcode_of_push {inst : MCInst} {rs : List Thumb.Register} (h : inst.thumb = some (.push rs)) :
    inst.opcode = .tPUSH := by
  unfold MCInst.thumb Opcode.thumb at h
  split at h
  all_goals simp [Option.bind_eq_some_iff] at h
  assumption

theorem setWidth_nextPc (inst : MCInst) : inst.nextPc.setWidth 32 = inst.pc.setWidth 32 + inst.size.setWidth 32 := by
  rw [MCInst.nextPc, BitVec.setWidth_add _ _ (by decide)]

theorem setWidth_wideNext {inst : MCInst} {instr : Thumb.Instr} {s : Thumb.State} (h : inst.thumb = some instr)
    (hpc : s.pc = inst.pc.setWidth 32) :
    (inst.wideNext s.flags instr).setWidth 32 = instr.next s (inst.size.setWidth 32) := by
  have hdestination {offset : BitVec 32} (hbranch : instr = .b offset ∨ ∃ cond, instr = .bCond cond offset) :
      inst.destination.setWidth 32 = s.pc + 4 + offset := by
    obtain ⟨imm, rest, hoperands, rfl⟩ := eq_of_thumb h hbranch
    rw [MCInst.destination, hoperands]
    show (inst.pc + 4 + BitVec.ofInt 64 imm).setWidth 32 = _
    rw [BitVec.setWidth_add _ _ (by decide), BitVec.setWidth_add _ _ (by decide), setWidth_ofInt, hpc]
    rfl
  cases instr with
  | b offset => exact hdestination (.inl rfl)
  | bCond cond offset =>
    simp only [MCInst.wideNext, Thumb.Instr.next]
    split
    · exact hdestination (.inr ⟨_, rfl⟩)
    · rw [setWidth_nextPc, hpc]
  | _ => exact (setWidth_nextPc inst).trans (congrArg (· + _) hpc.symm)
end Avatar.Translator
