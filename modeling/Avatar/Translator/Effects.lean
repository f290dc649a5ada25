import Avatar.Lib.Flags
import Avatar.Lib.SsaMemory
import Avatar.Translator.Accesses

/-! What the translated arithmetic and shift instructions, `CMP`, `PUSH` and the conditional branch do, as updates of
    the registers and flags. The code of an instruction gives a value to the registers that it writes; the others
    keep the value that they have. -/

namespace Avatar.Translator
open EmitM

namespace Registers

/-- The same registers and flags, of those that have a value. -/
def Agree (registers registers' : Registers) : Prop :=
  ∀ id, (registerType id).isSome = true → registers id = registers' id

/-- The registers and flags that have a value keep it, but for those of `ids`. -/
def KeptExcept (ids : List Register) (registers registers' : Registers) : Prop :=
  ∀ id, (registerType id).isSome = true → id ∉ ids → registers' id = registers id

def set (registers : Registers) (id : Register) (x : Ssa.Val (Nat × Argument)) : Registers :=
  Function.update registers id (some x)

/-- All flags but `V`. -/
def setZNC (registers : Registers) (z n c : Bool) : Registers :=
  ((registers.set .flagZ (.i1 z)).set .flagN (.i1 n)).set .flagC (.i1 c)

def setFlags (registers : Registers) (flags : Flags) : Registers :=
  (registers.setZNC flags.z flags.n flags.c).set .flagV (.i1 flags.v)

variable {registers registers' : Registers} {id : Register} {x : Ssa.Val (Nat × Argument)}

theorem set_self : registers.set id x id = some x := Function.update_self ..

theorem set_of_ne {id' : Register} (h : id' ≠ id) : registers.set id x id' = registers id' := Function.update_of_ne h ..

theorem set_comm {id' : Register} {x' : Ssa.Val (Nat × Argument)} (h : id ≠ id') :
    (registers.set id x).set id' x' = (registers.set id' x').set id x := Function.update_comm h ..

theorem setFlags_apply_of_ne {flags : Flags} (h : id ∉ [.flagZ, .flagN, .flagC, .flagV]) :
    registers.setFlags flags id = registers id := by
  simp only [List.mem_cons, List.not_mem_nil, or_false, not_or] at h
  obtain ⟨hz, hn, hc, hv⟩ := h
  rw [setFlags, setZNC, set_of_ne hv, set_of_ne hc, set_of_ne hn, set_of_ne hz]

theorem setZNC_apply_of_ne {z n c : Bool} (h : id ∉ [.flagZ, .flagN, .flagC]) :
    registers.setZNC z n c id = registers id := by
  simp only [List.mem_cons, List.not_mem_nil, or_false, not_or] at h
  obtain ⟨hz, hn, hc⟩ := h
  rw [setZNC, set_of_ne hc, set_of_ne hn, set_of_ne hz]

theorem Agree.refl : registers.Agree registers := fun _ _ => rfl

theorem Agree.set (h : registers.Agree registers') : (registers.set id x).Agree (registers'.set id x) := by
  intro id' hid'
  by_cases heq : id' = id
  · rw [heq, set_self, set_self]
  · rw [set_of_ne heq, set_of_ne heq, h id' hid']

theorem Agree.setZNC (h : registers.Agree registers') (z n c : Bool) :
    (registers.setZNC z n c).Agree (registers'.setZNC z n c) := h.set.set.set

theorem Agree.setFlags (h : registers.Agree registers') (flags : Flags) :
    (registers.setFlags flags).Agree (registers'.setFlags flags) := (h.setZNC _ _ _).set

theorem Agree.typed (h : registers.Agree registers') (htyped : registers'.Typed) : registers.Typed := by
  intro id ty hid
  rw [h id (Option.isSome_of_eq_some hid)]
  exact htyped id ty hid

theorem Typed.set (h : registers.Typed) {ty : Ssa.Ty} (hid : registerType id = some ty) (hx : x.HasType ty) :
    (registers.set id x).Typed := by
  intro id' ty' hid'
  by_cases heq : id' = id
  · rw [heq, hid] at hid'
    cases hid'
    exact ⟨x, heq ▸ set_self, hx⟩
  · rw [set_of_ne heq]
    exact h id' ty' hid'

theorem Typed.setFlags (h : registers.Typed) (flags : Flags) : (registers.setFlags flags).Typed :=
  (((h.set rfl (.i1 _)).set rfl (.i1 _)).set rfl (.i1 _)).set rfl (.i1 _)

end Registers

/-! ### The values of a map -/

/-- The registers that a map of values stands for at the end of the code. -/
def Values.read (values : Values) (env : Ssa.Env Register (Nat × Argument)) : Registers :=
  fun id => (values.lookup id).bind (·.eval env)

section Read
variable {values : Values} {env : Ssa.Env Register (Nat × Argument)} {id d : Register} {val rn rm : Value}
  {x y : BitVec 32}

theorem Values.read_set {v : Ssa.Val (Nat × Argument)} (h : val.eval env = some v) :
    (values.set id val).read env = (values.read env).set id v := by
  funext id'
  by_cases heq : id' = id
  · rw [heq, Registers.set_self, Values.read, Values.lookup_set_self, Option.bind_some, h]
  · rw [Registers.set_of_ne heq, Values.read, Values.lookup_set_of_ne heq]
    rfl

theorem agree_read_initialValues (registers : Registers) (results : List (Option (Ssa.Val (Nat × Argument)))) :
    (initialValues.read ⟨registers, results⟩).Agree registers := by
  intro id hid
  obtain ⟨ty, hty⟩ := Option.isSome_iff_exists.mp hid
  rw [Values.read, lookup_initialValues id (mem_of_registerType hty)]
  rfl

theorem eval_int32 (i : Int) : (int32 i).eval env = some (.i32 (BitVec.ofInt 32 i)) := rfl

theorem eval_isZero (h : val.eval env = some (.i32 x)) :
    Ssa.Value.eval env (.icmp .eq val (int32 0)) = some (.i1 (x == 0)) := by
  rw [Ssa.Value.eval, h, eval_int32]
  rfl

/-- The values that `add` sets. -/
def addValues (d : Register) (rn rm : Value) (values : Values) : Values :=
  let rd := .binary .add rn rm
  ((((values.set d rd).set .flagZ (.icmp .eq rd (int32 0))).set .flagN (sign rd)).set .flagC
    (.binary .or (.icmp .ugt rm rn) (.icmp .ult rd rn))).set .flagV
    (.binary .and (.not (.binary .xor (sign rn) (sign rm))) (.binary .xor (sign rn) (sign rd)))

/-- The flags that `add` sets. The carry is also set where the second operand is the greater one. -/
def addFlags (x y : BitVec 32) : Flags := { Flags.ofAdd x y with c := x.ult y || (x + y).ult x }

theorem read_addValues (hn : rn.eval env = some (.i32 x)) (hm : rm.eval env = some (.i32 y)) :
    (addValues d rn rm values).read env = ((values.read env).set d (.i32 (x + y))).setFlags (addFlags x y) := by
  have hrd : Ssa.Value.eval env (.binary .add rn rm) = some (.i32 (x + y)) := by
    rw [Ssa.Value.eval, hn, hm]
    rfl
  have hc : Ssa.Value.eval env (.binary .or (.icmp .ugt rm rn) (.icmp .ult (.binary .add rn rm) rn)) =
      some (.i1 (x.ult y || (x + y).ult x)) := by
    simp only [Ssa.Value.eval, hn, hm]
    rfl
  have hv : Ssa.Value.eval env (.binary .and (.not (.binary .xor (sign rn) (sign rm)))
      (.binary .xor (sign rn) (sign (.binary .add rn rm)))) = some (.i1 (Flags.ofAdd x y).v) := by
    simp only [Ssa.Value.eval, eval_sign hn, eval_sign hm, eval_sign hrd, Flags.overflow_ofAdd]
    rfl
  rw [addValues, Values.read_set hv, Values.read_set hc, Values.read_set (eval_sign hrd),
    Values.read_set (eval_isZero hrd), Values.read_set hrd]
  rfl

/-- The values that `compare` sets. -/
def compareValues (lhs rhs : Value) (values : Values) : Values :=
  (((values.set .flagZ (.icmp .eq lhs rhs)).set .flagC (.icmp .uge lhs rhs)).set .flagN
    (sign (.binary .sub lhs rhs))).set .flagV (overflowSub lhs rhs)

theorem read_compareValues (hl : rn.eval env = some (.i32 x)) (hr : rm.eval env = some (.i32 y)) :
    (compareValues rn rm values).read env = (values.read env).setFlags (Flags.ofSub x y) := by
  have hsub : Ssa.Value.eval env (.binary .sub rn rm) = some (.i32 (x - y)) := by
    rw [Ssa.Value.eval, hl, hr]
    rfl
  have hz : Ssa.Value.eval env (.icmp .eq rn rm) = some (.i1 (Flags.ofSub x y).z) := by
    rw [Ssa.Value.eval, hl, hr, Flags.zero_ofSub]
    rfl
  have hc : Ssa.Value.eval env (.icmp .uge rn rm) = some (.i1 (Flags.ofSub x y).c) := by
    rw [Ssa.Value.eval, hl, hr]
    rfl
  have hv : (overflowSub rn rm).eval env = some (.i1 (Flags.ofSub x y).v) := by
    simp only [overflowSub, Ssa.Value.eval, eval_sign hl, eval_sign hr, eval_sign hsub, Flags.overflow_ofSub]
    rfl
  rw [compareValues, Values.read_set hv, Values.read_set (eval_sign hsub), Values.read_set hc, Values.read_set hz,
    Registers.set_comm (show Register.flagC ≠ .flagN by simp)]
  rfl

/-- The values that a shift sets: the result, the flags `Z` and `N` from it, and the flag `C`. -/
def shiftValues (d : Register) (rd c : Value) (values : Values) : Values :=
  (((values.set d rd).set .flagZ (.icmp .eq rd (int32 0))).set .flagN (sign rd)).set .flagC c

theorem read_shiftValues {rd c : Value} {carry : Bool} (hrd : rd.eval env = some (.i32 x))
    (hc : c.eval env = some (.i1 carry)) :
    (shiftValues d rd c values).read env = ((values.read env).set d (.i32 x)).setZNC (x == 0) x.msb carry := by
  rw [shiftValues, Values.read_set hc, Values.read_set (eval_sign hrd), Values.read_set (eval_isZero hrd),
    Values.read_set hrd]
  rfl

end Read

/-! ### The operands -/

theorem not_mem_flags_of_isLow {d : Register} (h : d.isLow = true) : d ∉ [Register.flagZ, .flagN, .flagC, .flagV] := by
  cases d <;> simp_all [Register.isLow]

/-- A second operand: a register or an immediate. -/
def Operand.IsSource : Operand → Prop
  | reg register => register.isLow = true
  | imm _ => True

def Operand.value : Operand → Value
  | reg register => .phi register
  | imm value => int32 value

def Registers.operand (registers : Registers) : Operand → BitVec 32
  | .reg register => registers.word register
  | .imm value => BitVec.ofInt 32 value

theorem eval_phi {registers : Registers} (htyped : registers.Typed) {n : Register} (hn : n.isLow = true)
    (results : List (Option (Ssa.Val (Nat × Argument)))) :
    Ssa.Value.eval ⟨registers, results⟩ (.phi n) = some (.i32 (registers.word n)) :=
  htyped.word (registerType_of_isLow hn).1

theorem eval_operand {registers : Registers} (htyped : registers.Typed) {x : Operand} (hx : x.IsSource)
    (results : List (Option (Ssa.Val (Nat × Argument)))) :
    x.value.eval ⟨registers, results⟩ = some (.i32 (registers.operand x)) := by
  cases x with
  | reg register => exact eval_phi htyped hx results
  | imm value => rfl

/-! ### The effects -/

section Effects
variable {inst : MCInst} {translator : MCInst → EmitM Successor} {memory : CodeMemory} {registers : Registers}
  {d n : Register} {x : Operand}

theorem effect_of_values {values : Values} (he : translator inst ⟨[], initialValues⟩ = some (.fallThrough, ⟨[], values⟩))
    (registers : Registers) (m : Machine) :
    effect translator inst registers m = some (inst.nextPc, values.read ⟨registers, []⟩, m) := by
  simp only [effect, he]
  rfl

theorem emission_tADDi8 {imm : Int} (hoperands : inst.operands = [.reg d, .reg .cpsr, .reg n, .imm imm] ++ Operand.always)
    (hn : n.isLow = true) : tADDi8 inst ⟨[], initialValues⟩ =
      some (.fallThrough, ⟨[], addValues d (.phi n) (int32 imm) initialValues⟩) := by
  have hget (i : Nat) := congrArg (fun operands => operands[i]?) hoperands
  simp only [tADDi8, bind_apply, assertAlways_apply (hget 4) (hget 5), assertOperand_apply (hget 1),
    getReg_apply (hget 2), getReg_apply (hget 0), getImm_apply (hget 3), getValue_apply, lookup_low hn, Option.map_some,
    Option.bind_some]
  rfl

theorem emission_tADDrr {m : Register} (hoperands : inst.operands = [.reg d, .reg .cpsr, .reg n, .reg m] ++ Operand.always)
    (hn : n.isLow = true) (hm : m.isLow = true) : tADDrr inst ⟨[], initialValues⟩ =
      some (.fallThrough, ⟨[], addValues d (.phi n) (.phi m) initialValues⟩) := by
  have hget (i : Nat) := congrArg (fun operands => operands[i]?) hoperands
  simp only [tADDrr, bind_apply, assertAlways_apply (hget 4) (hget 5), assertOperand_apply (hget 1),
    getReg_apply (hget 2), getReg_apply (hget 3), getReg_apply (hget 0), getValue_apply, lookup_low hn, lookup_low hm,
    Option.map_some, Option.bind_some]
  rfl

theorem emission_tSUBi8 {imm : Int} (hoperands : inst.operands = [.reg d, .reg .cpsr, .reg n, .imm imm] ++ Operand.always)
    (hn : n.isLow = true) : tSUBi8 inst ⟨[], initialValues⟩ = some (.fallThrough,
      ⟨[], compareValues (.phi n) (int32 imm) (initialValues.set d (.binary .sub (.phi n) (int32 imm)))⟩) := by
  have hget (i : Nat) := congrArg (fun operands => operands[i]?) hoperands
  simp only [tSUBi8, bind_apply, assertAlways_apply (hget 4) (hget 5), assertOperand_apply (hget 1),
    getReg_apply (hget 2), getReg_apply (hget 0), getImm_apply (hget 3), getValue_apply, lookup_low hn, Option.map_some,
    Option.bind_some]
  rfl

theorem emission_tCMPi8 {imm : Int} (hoperands : inst.operands = [.reg n, .imm imm] ++ Operand.always)
    (hn : n.isLow = true) : tCMPi8 inst ⟨[], initialValues⟩ =
      some (.fallThrough, ⟨[], compareValues (.phi n) (int32 imm) initialValues⟩) := by
  have hget (i : Nat) := congrArg (fun operands => operands[i]?) hoperands
  simp only [tCMPi8, bind_apply, assertAlways_apply (hget 2) (hget 3), getReg_apply (hget 0), getImm_apply (hget 1),
    getValue_apply, lookup_low hn, Option.map_some, Option.bind_some]
  rfl

theorem emission_tCMPr {m : Register} (hoperands : inst.operands = [.reg n, .reg m] ++ Operand.always)
    (hn : n.isLow = true) (hm : m.isLow = true) : tCMPr inst ⟨[], initialValues⟩ =
      some (.fallThrough, ⟨[], compareValues (.phi n) (.phi m) initialValues⟩) := by
  have hget (i : Nat) := congrArg (fun operands => operands[i]?) hoperands
  simp only [tCMPr, bind_apply, assertAlways_apply (hget 2) (hget 3), getReg_apply (hget 0), getReg_apply (hget 1),
    getValue_apply, lookup_low hn, lookup_low hm, Option.map_some, Option.bind_some]
  rfl

theorem emission_tLSLri {imm : Int} (hoperands : inst.operands = [.reg d, .reg .cpsr, .reg n, .imm imm] ++ Operand.always)
    (hn : n.isLow = true) : tLSLri inst ⟨[], initialValues⟩ = some (.fallThrough,
      ⟨[], shiftValues d (.binary .shl (.phi n) (int32 imm)) (bit (.binary .shl (.phi n) (int32 imm)) (32 - imm))
        initialValues⟩) := by
  have hget (i : Nat) := congrArg (fun operands => operands[i]?) hoperands
  simp only [tLSLri, bind_apply, assertAlways_apply (hget 4) (hget 5), assertOperand_apply (hget 1),
    getReg_apply (hget 2), getReg_apply (hget 0), getImm_apply (hget 3), getValue_apply, lookup_low hn, Option.map_some,
    Option.bind_some]
  rfl

theorem emission_tLSRri_zero (hoperands : inst.operands = [.reg d, .reg .cpsr, .reg n, .imm 0] ++ Operand.always)
    (hn : n.isLow = true) : tLSRri inst ⟨[], initialValues⟩ =
      some (.fallThrough, ⟨[], shiftValues d (int32 0) (sign (.phi n)) initialValues⟩) := by
  have hget (i : Nat) := congrArg (fun operands => operands[i]?) hoperands
  simp only [tLSRri, bind_apply, assertAlways_apply (hget 4) (hget 5), assertOperand_apply (hget 1),
    getReg_apply (hget 2), getReg_apply (hget 0), getImm_apply (hget 3), getValue_apply, lookup_low hn, Option.map_some,
    Option.bind_some, if_pos]
  rfl

theorem emission_tLSRri {imm : Int} (hoperands : inst.operands = [.reg d, .reg .cpsr, .reg n, .imm imm] ++ Operand.always)
    (hn : n.isLow = true) (himm : imm ≠ 0) : tLSRri inst ⟨[], initialValues⟩ = some (.fallThrough,
      ⟨[], shiftValues d (.binary .lshr (.phi n) (int32 imm)) (bit (.binary .lshr (.phi n) (int32 imm)) (imm - 1))
        initialValues⟩) := by
  have hget (i : Nat) := congrArg (fun operands => operands[i]?) hoperands
  simp only [tLSRri, bind_apply, assertAlways_apply (hget 4) (hget 5), assertOperand_apply (hget 1),
    getReg_apply (hget 2), getReg_apply (hget 0), getImm_apply (hget 3), getValue_apply, lookup_low hn, Option.map_some,
    Option.bind_some, if_neg himm]
  rfl

/-- The branch takes its condition from the flags that the block starts with. -/
theorem emission_tBcc {offset cond : Int} (hoperands : inst.operands = [.imm offset, .imm cond, .reg .cpsr]) :
    tBcc inst ⟨[], initialValues⟩ = some (.branch offset cond, ⟨[], initialValues⟩) := by
  have hget (i : Nat) := congrArg (fun operands => operands[i]?) hoperands
  simp only [tBcc, bind_apply, assertOperand_apply (hget 2), getImm_apply (hget 0), getImm_apply (hget 1),
    Option.bind_some]
  rfl

/-- `ADD` with an immediate or a register. -/
theorem effect_addition (hopcode : inst.opcode = .tADDi8 ∨ inst.opcode = .tADDi3 ∨ inst.opcode = .tADDrr)
    (h : WellFormed inst.opcode inst.operands)
    (htranslator : instructionTranslator memory inst.opcode = some translator)
    (hoperands : inst.operands = [.reg d, .reg .cpsr, .reg n, x] ++ Operand.always) (htyped : registers.Typed)
    (m : Machine) : d.isLow = true ∧ ∃ registers',
      effect translator inst registers m = some (inst.nextPc, registers', m) ∧
        registers'.Agree ((registers.set d (.i32 (registers.word n + registers.operand x))).setFlags
          (addFlags (registers.word n) (registers.operand x))) := by
  have hsource : d.isLow = true ∧ n.isLow = true ∧ x.IsSource ∧ translator inst ⟨[], initialValues⟩ =
      some (.fallThrough, ⟨[], addValues d (.phi n) x.value initialValues⟩) := by
    rw [hoperands] at h
    rcases hopcode with hopcode | hopcode | hopcode <;> rw [hopcode] at h htranslator <;> cases htranslator <;>
      obtain ⟨_, _, _, heq, hd, hn, hx⟩ := h <;> cases heq
    case inl | inr.inl =>
      obtain ⟨imm, rfl⟩ := hx.exists_imm
      exact ⟨hd, hn, trivial, emission_tADDi8 hoperands hn⟩
    case inr.inr =>
      obtain ⟨r, rfl, hr⟩ := hx.exists_reg
      exact ⟨hd, hn, hr, emission_tADDrr hoperands hn hr⟩
  obtain ⟨hd, hn, hx, he⟩ := hsource
  refine ⟨hd, _, effect_of_values he registers m, ?_⟩
  rw [read_addValues (eval_phi htyped hn []) (eval_operand htyped hx [])]
  exact (agree_read_initialValues registers []).set.setFlags _

theorem toNat_ofInt_natCast {k : Nat} (hk : k < 32) : (BitVec.ofInt 32 (k : Int)).toNat = k := by
  rw [BitVec.ofInt_natCast, BitVec.toNat_ofNat, Nat.mod_eq_of_lt (Nat.lt_trans hk (by decide))]

/-- `LSL`: the flag `C` is a bit of the result. -/
theorem effect_tLSLri {k : Nat} (hoperands : inst.operands = [.reg d, .reg .cpsr, .reg n, .imm k] ++ Operand.always)
    (hn : n.isLow = true) (hk : 0 < k) (hk' : k < 32) (htyped : registers.Typed) (m : Machine) : ∃ registers',
      effect tLSLri inst registers m = some (inst.nextPc, registers', m) ∧
        registers'.Agree ((registers.set d (.i32 (registers.word n <<< k))).setZNC (registers.word n <<< k == 0)
          (registers.word n <<< k).msb ((registers.word n <<< k).getLsbD (32 - k))) := by
  have hrd : Ssa.Value.eval ⟨registers, []⟩ (.binary .shl (.phi n) (int32 k)) = some (.i32 (registers.word n <<< k)) := by
    simp only [Ssa.Value.eval, htyped.word (registerType_of_isLow hn).1, int32, Ssa.BinaryOp.eval32,
      toNat_ofInt_natCast hk', if_pos hk', Option.map_some]
  have hbit := eval_bit hrd (32 - k) (by omega)
  rw [show ((32 - k : Nat) : Int) = 32 - k by omega] at hbit
  refine ⟨_, effect_of_values (emission_tLSLri hoperands hn) registers m, ?_⟩
  rw [read_shiftValues hrd hbit]
  exact (agree_read_initialValues registers []).set.setZNC _ _ _

/-- `LSR`: the flag `C` is a bit of the result. -/
theorem effect_tLSRri {k : Nat} (hoperands : inst.operands = [.reg d, .reg .cpsr, .reg n, .imm k] ++ Operand.always)
    (hn : n.isLow = true) (hk : 0 < k) (hk' : k < 32) (htyped : registers.Typed) (m : Machine) : ∃ registers',
      effect tLSRri inst registers m = some (inst.nextPc, registers', m) ∧
        registers'.Agree ((registers.set d (.i32 (registers.word n >>> k))).setZNC (registers.word n >>> k == 0)
          (registers.word n >>> k).msb ((registers.word n >>> k).getLsbD (k - 1))) := by
  have hrd : Ssa.Value.eval ⟨registers, []⟩ (.binary .lshr (.phi n) (int32 k)) = some (.i32 (registers.word n >>> k)) := by
    simp only [Ssa.Value.eval, htyped.word (registerType_of_isLow hn).1, int32, Ssa.BinaryOp.eval32,
      toNat_ofInt_natCast hk', if_pos hk', Option.map_some]
  have hbit := eval_bit hrd (k - 1) (by omega)
  rw [show ((k - 1 : Nat) : Int) = k - 1 by omega] at hbit
  refine ⟨_, effect_of_values (emission_tLSRri hoperands hn (by omega)) registers m, ?_⟩
  rw [read_shiftValues hrd hbit]
  exact (agree_read_initialValues registers []).set.setZNC _ _ _

/-- `LSR` by 32, which is encoded as zero. -/
theorem effect_tLSRri_zero (hoperands : inst.operands = [.reg d, .reg .cpsr, .reg n, .imm 0] ++ Operand.always)
    (hn : n.isLow = true) (htyped : registers.Typed) (m : Machine) : ∃ registers',
      effect tLSRri inst registers m = some (inst.nextPc, registers', m) ∧
        registers'.Agree ((registers.set d (.i32 0)).setZNC true false (registers.word n).msb) := by
  refine ⟨_, effect_of_values (emission_tLSRri_zero hoperands hn) registers m, ?_⟩
  rw [read_shiftValues (eval_int32 0) (eval_sign (eval_phi htyped hn []))]
  exact (agree_read_initialValues registers []).set.setZNC _ _ _

/-! #### PUSH -/

/-- The stack pointer behind `n` registers. -/
def pushedPtr (stackPtr : Value) : Nat → Value
  | 0 => stackPtr
  | n + 1 => pushedPtr (.gep 4 stackPtr (int32 (-1))) n

/-- The stores of `tPUSH`. -/
def pushStores (stackPtr : Value) : List Register → List Instr
  | [] => []
  | r :: registers =>
    .store (.phi r) (.gep 4 stackPtr (int32 (-1))) (some "bla") ::
      pushStores (.gep 4 stackPtr (int32 (-1))) registers

theorem pushRegisters_apply {pushed : List Register} (hpushed : ∀ r ∈ pushed, registerType r = some .i32)
    (stackPtr : Value) (code : List Instr) :
    (pushed.map Operand.reg).foldlM pushRegister stackPtr ⟨code, initialValues⟩ =
      some (pushedPtr stackPtr pushed.length, ⟨code ++ pushStores stackPtr pushed, initialValues⟩) := by
  induction pushed generalizing stackPtr code with
  | nil => rw [pushStores, List.append_nil]; rfl
  | cons r pushed ih =>
    have hlookup := lookup_initialValues r (mem_of_registerType (hpushed r (List.mem_cons_self ..)))
    rw [List.map_cons, List.foldlM_cons, pushRegister]
    simp only [bind_apply, getValue_apply, hlookup, insert_apply, pure_apply, Option.map_some, Option.bind_some]
    rw [ih fun r hr => hpushed r (List.mem_cons_of_mem _ hr), List.append_assoc]
    rfl

theorem emission_tPUSH {pushed : List Register} (hoperands : inst.operands = Operand.always ++ pushed.map .reg)
    (hne : pushed ≠ []) (hpushed : ∀ r ∈ pushed, registerType r = some .i32) :
    tPUSH inst ⟨[], initialValues⟩ = some (.fallThrough, ⟨pushStores (.intToPtr (.phi .sp)) pushed,
      initialValues.set .sp (.ptrToInt (pushedPtr (.intToPtr (.phi .sp)) pushed.length))⟩) := by
  have hlength : 2 < inst.operands.length := by
    rw [hoperands, List.length_append, List.length_map]
    exact Nat.lt_add_of_pos_right (List.length_pos_iff.mpr hne)
  have hdrop : inst.operands.drop 2 = pushed.map .reg := by rw [hoperands]; rfl
  have hsp : initialValues.lookup .sp = some (.phi .sp) := lookup_initialValues .sp (by decide)
  rw [tPUSH, guard, if_pos hlength, pure_bind, hdrop]
  simp only [bind_apply, getValue_apply, hsp, Option.map_some, Option.bind_some, pushRegisters_apply hpushed,
    List.nil_append]
  rfl

theorem eval_pushed {env : Ssa.Env Register (Nat × Argument)} {stackPtr : Value} {a : BitVec 32}
    (h : stackPtr.eval env = some (.i32 a)) :
    Ssa.Value.eval env (.gep 4 stackPtr (int32 (-1))) = some (.i32 (a - 4)) := by
  have hnext : a + BitVec.ofInt 32 (-1) * 4 = a - 4 := by bv_omega
  rw [Ssa.Value.eval, h, eval_int32, ← hnext]

theorem eval_pushedPtr {env : Ssa.Env Register (Nat × Argument)} {stackPtr : Value} {a : BitVec 32}
    (h : stackPtr.eval env = some (.i32 a)) (k : Nat) :
    (pushedPtr stackPtr k).eval env = some (.i32 (a - 4 * BitVec.ofNat 32 k)) := by
  induction k generalizing stackPtr a with
  | zero => rw [pushedPtr, h]; simp
  | succ k ih =>
    have haddress : a - 4 - 4 * BitVec.ofNat 32 k = a - 4 * BitVec.ofNat 32 (k + 1) := by bv_omega
    rw [pushedPtr, ih (eval_pushed h), haddress]

theorem execAll_pushStores (htyped : registers.Typed) {pushed : List Register}
    (hpushed : ∀ r ∈ pushed, registerType r = some .i32) {stackPtr : Value} {a : BitVec 32}
    (hstack : ∀ results, stackPtr.eval ⟨registers, results⟩ = some (.i32 a))
    (results : List (Option (Ssa.Val (Nat × Argument)))) (m : Machine) :
    ∃ results', Ssa.execAll (⟨registers, results⟩, m) (pushStores stackPtr pushed) =
      some (⟨registers, results'⟩, m.pushWords a (pushed.map registers.word)) := by
  induction pushed generalizing stackPtr a results m with
  | nil => exact ⟨results, rfl⟩
  | cons r pushed ih =>
    have hval : Ssa.Value.eval ⟨registers, results⟩ (.phi r) = some (.i32 (registers.word r)) :=
      htyped.word (hpushed r (List.mem_cons_self ..))
    have hexec : Ssa.Instr.exec (⟨registers, results⟩, m)
        (.store (.phi r) (.gep 4 stackPtr (int32 (-1))) (some "bla")) =
          some (⟨registers, results ++ [none]⟩, m.store32 (a - 4) (registers.word r)) := by
      simp only [Ssa.Instr.exec, hval, eval_pushed (hstack results)]
    obtain ⟨results', hrun⟩ := ih (fun r hr => hpushed r (List.mem_cons_of_mem _ hr))
      (fun results => eval_pushed (hstack results)) (results ++ [none]) (m.store32 (a - 4) (registers.word r))
    exact ⟨results', by rw [pushStores, Ssa.execAll_cons, hexec, Option.bind_some, hrun]; rfl⟩

theorem effect_tPUSH {pushed : List Register} (hoperands : inst.operands = Operand.always ++ pushed.map .reg)
    (hne : pushed ≠ []) (hpushed : ∀ r ∈ pushed, registerType r = some .i32) (htyped : registers.Typed) (m : Machine) :
    ∃ registers', effect tPUSH inst registers m =
        some (inst.nextPc, registers', m.pushWords (registers.word .sp) (pushed.map registers.word)) ∧
      registers'.Agree (registers.set .sp (.i32 (registers.word .sp - 4 * BitVec.ofNat 32 pushed.length))) := by
  have hsp (results : List (Option (Ssa.Val (Nat × Argument)))) :
      Ssa.Value.eval ⟨registers, results⟩ (.intToPtr (.phi .sp)) = some (.i32 (registers.word .sp)) := by
    have hphi : Ssa.Value.eval ⟨registers, results⟩ (.phi .sp) = some (.i32 (registers.word .sp)) := htyped.word rfl
    rw [Ssa.Value.eval, hphi]
  obtain ⟨results, hrun⟩ := execAll_pushStores htyped hpushed hsp [] m
  have hptr : Ssa.Value.eval ⟨registers, results⟩ (.ptrToInt (pushedPtr (.intToPtr (.phi .sp)) pushed.length)) =
      some (.i32 (registers.word .sp - 4 * BitVec.ofNat 32 pushed.length)) := by
    rw [Ssa.Value.eval, eval_pushedPtr (hsp results)]
  refine ⟨_, ?_, (agree_read_initialValues registers results).set⟩
  rw [← Values.read_set hptr]
  simp only [effect, emission_tPUSH hoperands hne hpushed, hrun, Option.bind_eq_bind, Option.bind_some]
  rfl

end Effects

/-! ### A concrete state -/

/-- All registers are zero and all flags are clear. -/
def zeroRegisters : Registers := structRegisters 0 ⟨fun _ => 0, fun _ _ => 0⟩

theorem zeroRegisters_typed : zeroRegisters.Typed := structRegisters_typed 0 _

/-- No two registers have the same value, none is zero, and all flags are clear. -/
def distinctRegisters : Registers :=
  structRegisters 0 ⟨fun _ => 0, fun _ index => if index = 15 then 0 else 0x90000001 + BitVec.ofNat 32 index⟩

theorem distinctRegisters_typed : distinctRegisters.Typed := structRegisters_typed 0 _

def zeroMachine : Machine := ⟨fun _ => 0, fun _ _ => 0⟩

def noCode : CodeMemory := fun _ _ => (0, [])

end Avatar.Translator
