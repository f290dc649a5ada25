import Avatar.Translator.Pieces

/-! What the translated program computes, without blocks and phi nodes: at each program counter in the ranges the
    translator of the instruction there is applied to the current registers, flags and memory, and it designates
    the next program counter. -/

namespace Avatar.Translator

abbrev Registers := Register → Option (Ssa.Val (Nat × Argument))

abbrev Machine := Ssa.Machine (Nat × Argument)

/-- The program counter that a translator designates. -/
def Successor.nextPc (inst : MCInst) (values : Values) (env : Ssa.Env Register (Nat × Argument)) :
    Successor → Option (BitVec 64)
  | fallThrough => some inst.nextPc
  | jump offset => some (inst.branchPc offset)
  | branch offset condition => do
    let cond ← (getCondition values (BitVec.ofInt 32 condition)).join
    match cond.eval env with
    | some (.i1 holds) => some (if holds then inst.branchPc offset else inst.nextPc)
    | _ => none

/-- What the translator of `inst` does: its code is executed, and the registers get the values of its map. -/
def effect (translator : MCInst → EmitM Successor) (inst : MCInst) (registers : Registers) (m : Machine) :
    Option (BitVec 64 × Registers × Machine) := do
  let (successor, e) ← translator inst ⟨[], initialValues⟩
  let (env, m) ← Ssa.execAll (⟨registers, []⟩, m) e.code
  let pc ← successor.nextPc inst e.values env
  return (pc, fun id => (e.values.lookup id).bind (·.eval env), m)

inductive Processor where
  | running (pc : BitVec 64) (registers : Registers) (m : Machine)
  /-- At a program counter that is not in the ranges. -/
  | stopped (pc : BitVec 64) (registers : Registers) (m : Machine)
  | undefined

def Processor.step (source : Source) : Processor → Processor
  | running pc registers m =>
    if source.pcRanges.isInRange pc then
      match decode source pc with
      | .ok (some inst) =>
        match (instructionTranslator source.memory inst.opcode).bind (effect · inst registers m) with
        | some (pc, registers, m) => running pc registers m
        | none => undefined
      | _ => undefined
    else stopped pc registers m
  | s => s

def Machine.register (m : Machine) (function index : Nat) : BitVec 32 :=
  m.members (function, .processorRegisters) index

/-- The registers of the structure, and the flags of its `CPSR`. -/
def structRegisters (function : Nat) (m : Machine) : Register → Option (Ssa.Val (Nat × Argument))
  | .flagZ => some (.i1 ((m.register function 15).getLsbD 30))
  | .flagN => some (.i1 ((m.register function 15).getLsbD 31))
  | .flagC => some (.i1 ((m.register function 15).getLsbD 29))
  | .flagV => some (.i1 ((m.register function 15).getLsbD 28))
  | id => (registerDescription.zipIdx.lookup id).map fun index => .i32 (m.register function index)

def Processor.initial (source : Source) (function : Nat) (m : Machine) : Processor :=
  running source.entryPc (structRegisters function m) m

/-! ### Bits -/

theorem eval_bit {env : Ssa.Env Register (Nat × Argument)} {val : Value} {x : BitVec 32}
    (h : val.eval env = some (.i32 x)) (n : Nat) (hn : n < 32) : (bit val n).eval env = some (.i1 (x.getLsbD n)) := by
  have hshift : (BitVec.ofInt 32 (n : Int)).toNat = n := by
    rw [BitVec.ofInt_natCast, BitVec.toNat_ofNat, Nat.mod_eq_of_lt (Nat.lt_trans hn (by decide))]
  have hbit : ((x >>> n &&& 1#32) != 0#32) = x.getLsbD n := by
    rw [BitVec.and_one_eq_setWidth_ofBool_getLsbD, BitVec.getLsbD_ushiftRight, Nat.add_zero]
    cases x.getLsbD n <;> rfl
  simp only [bit, int32, Ssa.Value.eval, h, Ssa.BinaryOp.eval32, hshift, if_pos hn, Option.map_some,
    Ssa.Comparison.eval32]
  exact congrArg (fun holds => some (Ssa.Val.i1 holds)) hbit

theorem eval_sign {env : Ssa.Env Register (Nat × Argument)} {val : Value} {x : BitVec 32}
    (h : val.eval env = some (.i32 x)) : (sign val).eval env = some (.i1 x.msb) := by
  have hsign : (x >>> 31 != 0#32) = x.msb := by
    have hx := x.isLt
    rw [BitVec.msb_eq_decide, Bool.eq_iff_iff, bne_iff_ne, decide_eq_true_iff, ne_eq, ← BitVec.toNat_inj,
      BitVec.toNat_ushiftRight, Nat.shiftRight_eq_div_pow, BitVec.toNat_ofNat]
    omega
  simp only [sign, int32, Ssa.Value.eval, h, Ssa.BinaryOp.eval32]
  exact congrArg (fun holds => some (Ssa.Val.i1 holds)) hsign

/-! ### One instruction -/

def Registers.Typed (registers : Registers) : Prop :=
  ∀ id ty, registerType id = some ty → ∃ x, registers id = some x ∧ x.HasType ty

def Registers.word (registers : Registers) (id : Register) : BitVec 32 :=
  match registers id with
  | some (.i32 x) => x
  | _ => 0

theorem Registers.Typed.word {registers : Registers} (h : registers.Typed) {id : Register}
    (hid : registerType id = some .i32) : registers id = some (.i32 (registers.word id)) := by
  obtain ⟨_, hx, hty⟩ := h id .i32 hid
  obtain ⟨x, rfl⟩ := hty.i32_inv
  rw [Registers.word, hx]

variable {source : Source} {pc : BitVec 64}

theorem structRegisters_typed (function : Nat) (m : Machine) : Registers.Typed (structRegisters function m) := by
  intro id ty h
  cases id <;> cases h <;> exact ⟨_, rfl, by constructor⟩

/-- The terminator leads to the program counter that the translator designates. -/
theorem Successor.nextPc_eq {successor : Successor} {values : Values} {inst : MCInst} {next : Next}
    (h : successor.next values inst = some next) {results : List (Option Ssa.Ty)} (htyped : next.Typed results)
    {env : Ssa.Env Register (Nat × Argument)} (henv : env.HasType registerType results) (head : BitVec 64 → Nat) :
    ∃ pc' ∈ next.targets, successor.nextPc inst values env = some pc' ∧
      ∃ terminator, next.terminator head = [terminator] ∧ terminator.exit env = some (.goto (head pc')) := by
  cases successor with
  | fallThrough =>
    cases h
    exact ⟨_, List.mem_singleton_self _, rfl, _, rfl, rfl⟩
  | jump offset =>
    cases h
    exact ⟨_, List.mem_singleton_self _, rfl, _, rfl, rfl⟩
  | branch offset condition =>
    obtain ⟨cond, hcond, hnext⟩ := Option.bind_eq_some_iff.mp h
    cases hnext
    obtain ⟨_, heval, htype⟩ := htyped.eval henv
    obtain ⟨holds, rfl⟩ := htype.i1_inv
    refine ⟨if holds then inst.branchPc offset else inst.nextPc, ?_, ?_, _, rfl, ?_⟩
    · cases holds
      · exact List.mem_cons_self ..
      · exact List.mem_cons_of_mem _ (List.mem_cons_self ..)
    · simp only [nextPc, hcond, Option.bind_eq_bind, Option.bind_some, heval]
    · simp only [Ssa.Instr.exit, heval]
      cases holds <;> rfl

namespace Translation

def registers (t : Translation source pc) (env : Ssa.Env Register (Nat × Argument)) : Registers :=
  fun id => (t.emission.values.lookup id).bind (·.eval env)

/-- The instruction is executed: its code runs to its end, and the terminator leads to the program counter that the
    translator designates. The structures and `CPSR` stay as they are. -/
structure Executed (t : Translation source pc) (head : BitVec 64 → Nat) (registers : Registers) (m : Machine)
    (env : Ssa.Env Register (Nat × Argument)) (m' : Machine) (pc' : BitVec 64) : Prop where
  code : Ssa.execAll (⟨registers, []⟩, m) t.emission.code = some (env, m')
  members : m'.members = m.members
  target : pc' ∈ t.next.targets
  terminator : ∃ terminator, t.next.terminator head = [terminator] ∧ terminator.exit env = some (.goto (head pc'))
  typed : (t.registers env).Typed
  cpsr : t.registers env .cpsr = registers .cpsr
  step : Processor.step source (.running pc registers m) = .running pc' (t.registers env) m'

theorem registers_typed (t : Translation source pc) {env : Ssa.Env Register (Nat × Argument)}
    (henv : env.HasType registerType t.results) : (t.registers env).Typed := by
  intro id ty hid
  obtain ⟨val, hlookup, hval⟩ := t.typed.values id ty hid
  obtain ⟨x, hx, hty⟩ := hval.eval henv
  exact ⟨x, by rw [Translation.registers, hlookup, Option.bind_some, hx], hty⟩

theorem executed (t : Translation source pc) (hrange : source.pcRanges.isInRange pc = true) {registers : Registers}
    (h : registers.Typed) (m : Machine) (head : BitVec 64 → Nat) :
    ∃ env m' pc', t.Executed head registers m env m' pc' := by
  obtain ⟨env, m', hcode, hphi, hmembers, henv⟩ := t.typed.code.execAll h (m := m)
  obtain ⟨pc', htarget, hnextPc, hterminator⟩ := Successor.nextPc_eq t.next_eq t.next_typed henv head
  refine ⟨env, m', pc', hcode, hmembers, htarget, hterminator, t.registers_typed henv, ?_, ?_⟩
  · rw [Translation.registers, t.typed.cpsr, Option.bind_some, Ssa.Value.eval, hphi]
  · have heffect : effect t.translator t.inst registers m = some (pc', t.registers env, m') := by
      simp only [effect, t.emission_eq, hcode, hnextPc, Option.bind_eq_bind, Option.bind_some]
      rfl
    simp only [Processor.step, if_pos hrange, t.decode_eq, t.translator_eq, Option.bind_some, heffect]

end Translation

end Avatar.Translator
