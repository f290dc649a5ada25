import Avatar.Theorems.Instrumentation
import Avatar.Translator.Accesses

/-! The two models of the pass agree. In the one the values of a block are expressions, and a call of a handler is a
    single instruction. In the other every value has an instruction of its own, and a call has its casts. A block of the
    second that does what a block of the first does still does so after both have been instrumented. -/

namespace Avatar.Translator.InstrumentMemoryAccessPass
open Ir

/-! ### A call and its casts -/

section Calls
variable {ι κ τ σ : Type} [DecidableEq κ]

/-- The members, the handlers' own state and the calls so far -/
abbrev Rest (κ σ : Type) := (κ → Nat → BitVec 32) × σ × List Ssa.Access

def ofCallMachine (m : Ssa.CallMachine κ σ) : State (Rest κ σ) :=
  ⟨m.machine.memory, m.machine.members, m.state, m.calls⟩

def toCallMachine (s : State (Rest κ σ)) : Ssa.CallMachine κ σ := ⟨⟨s.memory, s.rest.1⟩, s.rest.2.1, s.rest.2.2⟩

/-- The handlers, as functions that are called -/
def callSemantics (handlers : Ssa.Handlers κ σ)
    (other : τ → List Val → State (Rest κ σ) → Option (Option Val × State (Rest κ σ))) :
    Semantics Handler τ (Rest κ σ) where
  call
    | .readHandler, [.ptr a, .int 32 size], s =>
      let m := toCallMachine s
      let (v, machine, state) := handlers.read a size m.machine m.state
      some (some (.int 32 v), ofCallMachine ⟨machine, state, m.calls ++ [.read a size]⟩)
    | .writeHandler, [.ptr a, .int 32 size, .int 32 v], s =>
      let m := toCallMachine s
      let (machine, state) := handlers.write a size v m.machine m.state
      some (none, ofCallMachine ⟨machine, state, m.calls ++ [.write a size v]⟩)
    | _, _, _ => none
  other := other

/-- The value of an instruction for an integer of an expression -/
def ofVal : Ssa.Val κ → Option Val
  | .i16 v => some (.int 16 v)
  | .i32 v => some (.int 32 v)
  | _ => none

variable (handlers : Ssa.Handlers κ σ)
  (other : τ → List Val → State (Rest κ σ) → Option (Option Val × State (Rest κ σ))) {env : Env}
  {env' : Ssa.Env ι κ} {m : Ssa.CallMachine κ σ} {address value : Ir.Operand} {address' value' : Ssa.Value ι κ}
  {a size : BitVec 32}

theorem exec_read (haddress' : address'.eval env' = some (.i32 a)) (haddress : address.eval env = some (.ptr a))
    (ty : Ssa.Ty) (w id n : Nat) : ∃ (v : BitVec 32) (m' : Ssa.CallMachine κ σ) (env₁ : Env),
      Ssa.CallInstr.exec handlers (env', m) (.read ty address' size) =
        some ({ env' with results := env'.results ++ [some (ty.cast v)] }, m') ∧
      execAll (callSemantics handlers other) (env, ofCallMachine m) (loadCode n id (.int w) address size) =
        some (env₁, ofCallMachine m') ∧
      (env.set id (.int w (v.setWidth w))).Agree n env₁ := by
  let r := handlers.read a size m.machine m.state
  have hcall : (callSemantics handlers other).call .readHandler [.ptr a, .int 32 size] (ofCallMachine m) =
      some (some (.int 32 r.1), ofCallMachine ⟨r.2.1, r.2.2, m.calls ++ [Ssa.Access.read a size]⟩) := rfl
  refine ⟨r.1, _, _, ?_, execAll_load haddress hcall id n w, ?_⟩
  · simp only [Ssa.CallInstr.exec, haddress']
    rfl
  · have hnew : env.Agree n ((env.set n (.ptr a)).set (n + 1) (.int 32 r.1)) :=
      (Env.Agree.refl.set_new (Nat.le_refl n)).set_new (Nat.le_succ n)
    exact hnew.set

theorem exec_write {val : Ssa.Val κ} {v : Val} (hval : ofVal val = some v)
    (haddress' : address'.eval env' = some (.i32 a)) (hvalue' : value'.eval env' = some val) {n : Nat}
    (haddress : address.eval env = some (.ptr a)) (hvalue : value.eval (env.set n (.ptr a)) = some v) (id : Nat) :
    ∃ (m' : Ssa.CallMachine κ σ) (env₁ : Env),
      Ssa.CallInstr.exec handlers (env', m) (.write address' size value') =
        some ({ env' with results := env'.results ++ [none] }, m') ∧
      execAll (callSemantics handlers other) (env, ofCallMachine m) (storeCode n id value address size) =
        some (env₁, ofCallMachine m') ∧
      env.Agree n env₁ := by
  have hword : ∃ w x, v = .int w x ∧ val.word = some (x.setWidth 32) := by
    cases val with
    | i1 | member => cases hval
    | i16 x => exact ⟨16, x, (Option.some.inj hval).symm, rfl⟩
    | i32 x => exact ⟨32, x, (Option.some.inj hval).symm, by rw [BitVec.setWidth_eq]; rfl⟩
  obtain ⟨w, x, rfl, hword⟩ := hword
  let r := handlers.write a size (x.setWidth 32) m.machine m.state
  have hcall : (callSemantics handlers other).call .writeHandler [.ptr a, .int 32 size, .int 32 (x.setWidth 32)]
      (ofCallMachine m) =
        some (none, ofCallMachine ⟨r.1, r.2, m.calls ++ [Ssa.Access.write a size (x.setWidth 32)]⟩) := rfl
  refine ⟨_, _, ?_, execAll_store haddress hvalue hcall id, ?_⟩
  · simp only [Ssa.CallInstr.exec, haddress', hvalue', Option.bind_some, hword]
    rfl
  · exact (Env.Agree.refl.set_new (Nat.le_refl n)).set_new (Nat.le_succ n)

end Calls

/-! ### Whole blocks -/

/-- What the results of instructions have to do with the values of expressions. The identities from `bound` on do not
    matter. -/
structure Link (bound : Nat) where
  Holds : Env → Ssa.Env Register (Nat × Argument) → Prop
  congr : ∀ {env env₁ env'}, Holds env env' → env.Agree bound env₁ → Holds env₁ env'

namespace Link
variable {bound : Nat} {σ : Type} (R : Link bound)

/-- The operand is the address that the expression is. -/
def IsAddress (o : Ir.Operand) (e : Value) : Prop :=
  ∀ env env', R.Holds env env' → ∃ a, o.eval env = some (.ptr a) ∧ e.eval env' = some (.i32 a)

/-- The operand is the integer that the expression is. -/
def IsInteger (o : Ir.Operand) (e : Value) : Prop :=
  ∀ env env', R.Holds env env' → ∃ val v, e.eval env' = some val ∧ ofVal val = some v ∧ o.eval env = some v

/-- The same state at both levels -/
structure Same (s : Env × State (Rest (Nat × Argument) σ))
    (t : Ssa.Env Register (Nat × Argument) × Ssa.CallMachine (Nat × Argument) σ) : Prop where
  holds : R.Holds s.1 t.1
  state : s.2 = ofCallMachine t.2

end Link

section Blocks
variable {τ σ : Type} (handlers : Ssa.Handlers (Nat × Argument) σ)
  (other : τ → List Val → State (Rest (Nat × Argument) σ) →
    Option (Option Val × State (Rest (Nat × Argument) σ))) {bound n n' : Nat}

/-- A block of instructions does what code with expressions does, where `R` holds before and `R'` after it: they have the
    same accesses, and the other instructions either compute values for them or are those of the code. -/
inductive Lowers : Link bound → List (Inst Handler τ) → List Instr → Link bound → Prop where
  | nil (R : Link bound) : Lowers R [] [] R
  | compute {R R₁ R' : Link bound} {inst : Inst Handler τ} {bb : List (Inst Handler τ)} {code : List Instr}
      (h : isAccess inst = false)
      (hexec : ∀ env env' state, R.Holds env env' →
        ∃ env₁, inst.exec (callSemantics handlers other) (env, state) = some (env₁, state) ∧ R₁.Holds env₁ env')
      (hrest : Lowers R₁ bb code R') : Lowers R (inst :: bb) code R'
  | plain {R R₁ R' : Link bound} {inst : Inst Handler τ} {instr : Instr} {bb : List (Inst Handler τ)}
      {code : List Instr} (h : isAccess inst = false) (huntouched : Untouched instr)
      (hexec : ∀ s t, R.Same s t →
        Option.Rel R₁.Same (inst.exec (callSemantics handlers other) s) (Ssa.CallInstr.exec handlers t (.plain instr)))
      (hrest : Lowers R₁ bb code R') : Lowers R (inst :: bb) (instr :: code) R'
  | load {R R₁ R' : Link bound} {id w : Nat} {ty : Ssa.Ty} {address : Ir.Operand} {address' : Value}
      {metadata : List String} {bb : List (Inst Handler τ)} {code : List Instr}
      (hty : (ty, w) ∈ [(Ssa.Ty.i16, 16), (Ssa.Ty.i32, 32)]) (htranslated : "translated_memory_access" ∈ metadata)
      (hptr : address.ty = .ptr (.int w)) (hsize : elementSize address' = accessSize address)
      (haddress : R.IsAddress address address')
      (hresult : ∀ env env' (v : BitVec 32), R.Holds env env' → R₁.Holds (env.set id (.int w (v.setWidth w)))
        { env' with results := env'.results ++ [some (ty.cast v)] })
      (hrest : Lowers R₁ bb code R') :
      Lowers R (⟨id, .int w, .load address, metadata⟩ :: bb) (.load ty address' translatedMemoryAccess :: code) R'
  | store {R R₁ R' : Link bound} {id w : Nat} {value address : Ir.Operand} {value' address' : Value}
      {metadata : List String} {bb : List (Inst Handler τ)} {code : List Instr} {ty : Ir.Ty}
      (hw : w ∈ [16, 32]) (htranslated : "translated_memory_access" ∈ metadata) (hvalueTy : value.ty = .int w)
      (hptr : address.ty = .ptr (.int w)) (hsize : elementSize address' = accessSize address)
      (haddress : R.IsAddress address address') (hvalue : R.IsInteger value value')
      (hresult : ∀ env env', R.Holds env env' → R₁.Holds env { env' with results := env'.results ++ [none] })
      (hrest : Lowers R₁ bb code R') :
      Lowers R (⟨id, ty, .store value address, metadata⟩ :: bb)
        (.store value' address' translatedMemoryAccess :: code) R'

variable {handlers other} {R R' : Link bound} {bb bb' : List (Inst Handler τ)} {code : List Instr}

theorem instrumentable_of_not_isAccess {inst : Inst Handler τ} (h : isAccess inst = false) : Instrumentable inst := by
  obtain ⟨id, ty, op, metadata⟩ := inst
  intro htranslated
  cases op with
  | load | store => simp [isAccess, htranslated] at h
  | pointerCast | integerCast | call | other => trivial

theorem Lowers.instrumentable (h : Lowers handlers other R bb code R') : ∀ inst ∈ bb, Instrumentable inst := by
  induction h with
  | nil => exact fun _ h => nomatch h
  | compute h _ _ ih | plain h _ _ _ ih =>
    exact List.forall_mem_cons.mpr ⟨instrumentable_of_not_isAccess h, ih⟩
  | load hty _ hptr _ _ _ _ ih =>
    refine List.forall_mem_cons.mpr ⟨fun _ => ⟨?_, hptr⟩, ih⟩
    simp only [List.mem_cons, Prod.mk.injEq, List.not_mem_nil, or_false] at hty
    rcases hty with ⟨-, rfl⟩ | ⟨-, rfl⟩ <;> simp
  | store hw _ hvalueTy hptr _ _ _ _ _ ih =>
    refine List.forall_mem_cons.mpr ⟨fun _ => ⟨?_, hptr.trans (congrArg Ir.Ty.ptr hvalueTy.symm)⟩, ih⟩
    rw [hvalueTy]
    rcases List.mem_pair.mp hw with rfl | rfl <;> simp

theorem Rewrites.of_not_isAccess {inst : Inst Handler τ} (h : Rewrites inst n bb n') (hinst : isAccess inst = false) :
    bb = [inst] ∧ n' = n := by
  cases h with
  | other => exact ⟨rfl, rfl⟩
  | load hop htranslated | store hop htranslated => simp [isAccess, htranslated, hop] at hinst

theorem load_same {id w : Nat} {ty : Ssa.Ty} {address : Ir.Operand} {address' : Value} {size : BitVec 32}
    {R₁ : Link bound} (haddress : R.IsAddress address address')
    (hresult : ∀ env env' (v : BitVec 32), R.Holds env env' → R₁.Holds (env.set id (.int w (v.setWidth w)))
      { env' with results := env'.results ++ [some (ty.cast v)] }) (hn : bound ≤ n) {s t} (h : R.Same s t) :
    Option.Rel R₁.Same (execAll (callSemantics handlers other) s (loadCode n id (.int w) address size))
      (Ssa.CallInstr.exec handlers t (.read ty address' size)) := by
  obtain ⟨env, _⟩ := s
  obtain ⟨env', m⟩ := t
  obtain ⟨hholds, rfl⟩ := h
  obtain ⟨a, ha, ha'⟩ := haddress env env' hholds
  obtain ⟨v, m', env₁, hexec', hexec, hagree⟩ := exec_read handlers other (m := m) ha' ha ty w id n
  rw [hexec, hexec']
  exact .some ⟨R₁.congr (hresult env env' v hholds) fun id' hid' => hagree id' (Nat.lt_of_lt_of_le hid' hn), rfl⟩

theorem store_same {id : Nat} {value address : Ir.Operand} {value' address' : Value} {size : BitVec 32}
    {R₁ : Link bound} (haddress : R.IsAddress address address') (hvalue : R.IsInteger value value')
    (hresult : ∀ env env', R.Holds env env' → R₁.Holds env { env' with results := env'.results ++ [none] })
    (hn : bound ≤ n) {s t} (h : R.Same s t) :
    Option.Rel R₁.Same (execAll (callSemantics handlers other) s (storeCode n id value address size))
      (Ssa.CallInstr.exec handlers t (.write address' size value')) := by
  obtain ⟨env, _⟩ := s
  obtain ⟨env', m⟩ := t
  obtain ⟨hholds, rfl⟩ := h
  obtain ⟨a, ha, ha'⟩ := haddress env env' hholds
  -- the cast of the address comes before the value is looked at
  have hcast : R.Holds (env.set n (.ptr a)) env' := R.congr hholds (Env.Agree.refl.set_new hn)
  obtain ⟨val, v, hval', hval, hv⟩ := hvalue _ _ hcast
  obtain ⟨m', env₁, hexec', hexec, hagree⟩ := exec_write handlers other (m := m) hval ha' hval' ha hv id
  rw [hexec, hexec']
  exact .some ⟨R₁.congr (hresult env env' hholds) fun id' hid' => hagree id' (Nat.lt_of_lt_of_le hid' hn), rfl⟩

/-- Both have the pass run over them, and they still do the same. -/
theorem Lowers.exec (h : Lowers handlers other R bb code R') (hall : RewritesAll bb n bb' n') (hn : bound ≤ n) :
    ∃ code', List.Forall₂ (fun instr call => Translator.runOnInstruction instr = some call) code code' ∧
      ∀ s t, R.Same s t →
        Option.Rel R'.Same (execAll (callSemantics handlers other) s bb') (Ssa.callExecAll handlers t code') := by
  induction h generalizing n bb' with
  | nil R =>
    cases hall
    exact ⟨[], .nil, fun s t h => .some h⟩
  | compute h hexec _ ih =>
    obtain _ | ⟨hone, hall⟩ := hall
    obtain ⟨rfl, rfl⟩ := hone.of_not_isAccess h
    obtain ⟨code', hcode, hsame⟩ := ih hall hn
    refine ⟨code', hcode, fun s t hst => ?_⟩
    obtain ⟨env₁, hrun, hholds⟩ := hexec s.1 t.1 s.2 hst.holds
    rw [List.singleton_append, execAll_cons, hrun, Option.bind_some]
    exact hsame _ _ ⟨hholds, hst.state⟩
  | plain h huntouched hexec _ ih =>
    obtain _ | ⟨hone, hall⟩ := hall
    obtain ⟨rfl, rfl⟩ := hone.of_not_isAccess h
    obtain ⟨code', hcode, hsame⟩ := ih hall hn
    refine ⟨_, .cons huntouched hcode, fun s t hst => ?_⟩
    rw [List.singleton_append, execAll_cons, Ssa.callExecAll_cons]
    exact rel_bind (hexec s t hst) hsame
  | load hty htranslated hptr hsize haddress hresult _ ih =>
    obtain _ | ⟨hone, hall⟩ := hall
    cases hone with
    | other hother => simp [isAccess, isTranslated, htranslated] at hother
    | store hop => cases hop
    | load hop _ haccess =>
      cases hop
      obtain ⟨code', hcode, hsame⟩ := ih hall (Nat.le_add_right_of_le hn)
      refine ⟨_, .cons (runOnInstruction_load (hsize.trans haccess)) hcode, fun s t hst => ?_⟩
      rw [execAll_append, Ssa.callExecAll_cons]
      exact rel_bind (load_same haddress hresult hn hst) hsame
  | store hw htranslated hvalueTy hptr hsize haddress hvalue hresult _ ih =>
    obtain _ | ⟨hone, hall⟩ := hall
    cases hone with
    | other hother => simp [isAccess, isTranslated, htranslated] at hother
    | load hop => cases hop
    | store hop _ haccess =>
      cases hop
      obtain ⟨code', hcode, hsame⟩ := ih hall (Nat.le_add_right_of_le hn)
      refine ⟨_, .cons (runOnInstruction_store (hsize.trans haccess)) hcode, fun s t hst => ?_⟩
      rw [execAll_append, Ssa.callExecAll_cons]
      exact rel_bind (store_same haddress hvalue hresult hn hst) hsame

/-- The pass succeeds on both blocks, and what it makes of them does the same from the same states. -/
theorem Lowers.runOnBasicBlock {block : BasicBlock} (h : Lowers handlers other R bb block.code R') (hn : bound ≤ n) :
    ∃ bb' n' block', InstrumentMemoryAccessPass.runOnBasicBlock bb n = some (bb', n') ∧
      Translator.runOnBasicBlock block = some block' ∧ ∀ s t, R.Same s t →
        Option.Rel R'.Same (execAll (callSemantics handlers other) s bb') (Ssa.callExecAll handlers t block'.code) := by
  obtain ⟨bb', n', hrun, hall⟩ := runOnBasicBlock_rewritesAll h.instrumentable n
  obtain ⟨code', hcode, hsame⟩ := h.exec hall hn
  refine ⟨bb', n', ⟨block.phis, code'⟩, hrun, ?_, hsame⟩
  rw [Translator.runOnBasicBlock, Traversal.mapM_eq_some_iff.mpr hcode, Option.map_some]

/-- The block that loads a word at an offset from a register, whose value has the identity 0 -/
def wordLoad (imm : Int) : List (Inst Handler Int) :=
  [⟨1, .ptr (.int 32), .other imm [.result (.ptr (.int 32)) 0], []⟩,
    ⟨2, .int 32, .load (.result (.ptr (.int 32)) 1), ["translated_memory_access"]⟩]

/-- The address of an element of four bytes, as `CreateGEP` computes it -/
def elementAddress : Int → List Val → State (Rest (Nat × Argument) σ) →
    Option (Option Val × State (Rest (Nat × Argument) σ))
  | imm, [.ptr a], s => some (some (.ptr (a + BitVec.ofInt 32 imm * 4)), s)
  | _, _, _ => none

/-- The base register has the value of identity 0. -/
def baseLink (r : Register) : Link 3 where
  Holds env env' := ∃ a, env 0 = some (.ptr a) ∧ env'.phi r = some (.i32 a)
  congr := fun ⟨a, h, hphi⟩ hagree => ⟨a, (hagree 0 (by decide)).symm.trans h, hphi⟩

/-- So has the element the value of identity 1. -/
def elementLink (r : Register) (imm : Int) : Link 3 where
  Holds env env' := ∃ a, env 1 = some (.ptr a) ∧ (elementPtr 4 r imm).eval env' = some (.i32 a)
  congr := fun ⟨a, h, helement⟩ hagree => ⟨a, (hagree 1 (by decide)).symm.trans h, helement⟩

/-- The last result has the value of identity 2. -/
def resultLink : Link 3 where
  Holds env env' := ∃ v : BitVec 32, env 2 = some (.int 32 v) ∧ env'.results.getLast? = some (some (.i32 v))
  congr := fun ⟨v, h, hlast⟩ hagree => ⟨v, (hagree 2 (by decide)).symm.trans h, hlast⟩

theorem lowers_wordLoad (r : Register) (imm : Int) : Lowers handlers elementAddress (baseLink r) (wordLoad imm)
    [.load .i32 (elementPtr 4 r imm) translatedMemoryAccess] resultLink := by
  have haddress : (elementLink r imm).IsAddress (.result (.ptr (.int 32)) 1) (elementPtr 4 r imm) := by
    rintro env env' ⟨a, ha, helement⟩
    exact ⟨a, by rw [Ir.Operand.eval, ha]; rfl, helement⟩
  have hresult : ∀ env env' (v : BitVec 32), (elementLink r imm).Holds env env' →
      resultLink.Holds (env.set 2 (.int 32 (v.setWidth 32)))
        { env' with results := env'.results ++ [some (Ssa.Ty.i32.cast v)] } := by
    intro env env' v _
    exact ⟨v, by rw [Env.set, Function.update_self, BitVec.setWidth_eq], List.getLast?_concat⟩
  refine .compute rfl ?_ (.load (.tail _ (.head _)) (.head _) rfl rfl haddress hresult (.nil _))
  rintro env env' state ⟨a, ha, hphi⟩
  have hbase : (Ir.Operand.result (.ptr (.int 32)) 0).eval env = some (.ptr a) := by
    rw [Ir.Operand.eval, ha]
    rfl
  refine ⟨env.set 1 (.ptr (a + BitVec.ofInt 32 imm * 4)), ?_, _, Function.update_self .., ?_⟩
  · simp only [Inst.exec, List.mapM_cons, List.mapM_nil, hbase, Option.bind_eq_bind, Option.bind_some, Option.pure_def]
    rfl
  · simp only [elementPtr, Translator.int32, Ssa.Value.eval, hphi]

end Blocks

end Avatar.Translator.InstrumentMemoryAccessPass
