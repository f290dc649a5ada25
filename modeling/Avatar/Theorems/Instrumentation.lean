import Avatar.Translator.InstrumentBasicBlock

/-! The instrumentation keeps the meaning of a block, where the handlers read and write memory. The identities that the
    pass gives to its casts and calls are new, so nothing else looks at them, and the instruction that replaces an access
    has its identity and its value. -/

namespace Avatar.Translator.InstrumentMemoryAccessPass
open Bytes Ir

variable {τ σ : Type} {semantics : Semantics Handler τ σ} {bound n n' : Nat} {inst : Inst Handler τ}
  {bb code : List (Inst Handler τ)} {s t : Env × State σ}

/-! ### What the pass should do -/

/-- A load or store that is marked as translated -/
def isAccess (inst : Inst Handler τ) : Bool :=
  isTranslated inst && match inst.op with
    | .load _ | .store _ _ => true
    | _ => false

/-- An access has an integer of 8, 16 or 32 bits, and its address is a pointer to one. -/
def Instrumentable (inst : Inst Handler τ) : Prop :=
  isTranslated inst = true →
    match inst.op with
    | .load address => inst.ty ∈ [.int 8, .int 16, .int 32] ∧ address.ty = .ptr inst.ty
    | .store value address => value.ty ∈ [.int 8, .int 16, .int 32] ∧ address.ty = .ptr value.ty
    | _ => True

/-- The read handler returns the bytes of memory, with anything above them, and changes nothing. The write handler
    stores the low bytes of its value. -/
structure Conforming (semantics : Semantics Handler τ σ) : Prop where
  read : ∀ (p n : BitVec 32) (s : State σ), n ∈ [1, 2, 4] → ∃ v : BitVec 32,
    semantics.call .readHandler [.ptr p, .int 32 n] s = some (some (.int 32 v), s) ∧
      v.toNat % 2 ^ (8 * n.toNat) = ofLE (s.memory.load p n.toNat)
  write : ∀ (p n v : BitVec 32) (s : State σ), n ∈ [1, 2, 4] →
    semantics.call .writeHandler [.ptr p, .int 32 n, .int 32 v] s =
      some (none, { s with memory := s.memory.store p (toLE n.toNat v.toNat) })

/-- A block does what another one does, as far as the identities below `bound` go, has no accesses, and has the other
    instructions in their order. -/
structure Preserves (semantics : Semantics Handler τ σ) (bound : Nat) (bb bb' : List (Inst Handler τ)) : Prop where
  meaning : ∀ s, Option.Rel (Matches bound) (execAll semantics s bb) (execAll semantics s bb')
  accesses : ∀ inst ∈ bb', isAccess inst = false
  others : (bb.filter fun inst => !isAccess inst).Sublist bb'

/-! ### The loop -/

/-- What a load becomes -/
def loadCode (n id : Nat) (ty : Ty) (address : Ir.Operand) (size : BitVec 32) : List (Inst Handler τ) :=
  [⟨n, int8Ptr, .pointerCast address, []⟩,
    ⟨n + 1, .int 32, .call .readHandler [.result int8Ptr n, int32 size], []⟩,
    ⟨id, ty, .integerCast (.result (.int 32) (n + 1)), []⟩]

/-- What a store becomes -/
def storeCode (n id : Nat) (value address : Ir.Operand) (size : BitVec 32) : List (Inst Handler τ) :=
  [⟨n, int8Ptr, .pointerCast address, []⟩,
    ⟨n + 1, .int 32, .integerCast value, []⟩,
    ⟨id, .void, .call .writeHandler [.result int8Ptr n, int32 size, .result (.int 32) (n + 1)], []⟩]

/-- What the pass makes of an instruction, where the next identity is `n` before and `n'` after it -/
inductive Rewrites : Inst Handler τ → Nat → List (Inst Handler τ) → Nat → Prop where
  | other {inst : Inst Handler τ} {n : Nat} (h : isAccess inst = false) : Rewrites inst n [inst] n
  | load {inst : Inst Handler τ} {n : Nat} {address : Ir.Operand} {size : BitVec 32} (hop : inst.op = .load address)
      (htranslated : isTranslated inst = true) (hsize : accessSize address = some size) :
      Rewrites inst n (loadCode n inst.id inst.ty address size) (n + 2)
  | store {inst : Inst Handler τ} {n : Nat} {value address : Ir.Operand} {size : BitVec 32}
      (hop : inst.op = .store value address) (htranslated : isTranslated inst = true)
      (hsize : accessSize address = some size) :
      Rewrites inst n (storeCode n inst.id value address size) (n + 2)

inductive RewritesAll : List (Inst Handler τ) → Nat → List (Inst Handler τ) → Nat → Prop where
  | nil (n : Nat) : RewritesAll [] n [] n
  | cons {inst : Inst Handler τ} {bb code code' : List (Inst Handler τ)} {n n' n'' : Nat} (h : Rewrites inst n code n')
      (hall : RewritesAll bb n' code' n'') : RewritesAll (inst :: bb) n (code ++ code') n''

theorem le_of_mem_sizes {size : BitVec 32} (h : size ∈ ([1, 2, 4] : List (BitVec 32))) : 8 * size.toNat ≤ 32 := by
  simp only [List.mem_cons, List.not_mem_nil, or_false] at h
  rcases h with rfl | rfl | rfl <;> decide

/-- Each width has its size. -/
theorem exists_accessSize {address : Ir.Operand} {ty : Ty} (hty : ty ∈ [Ty.int 8, .int 16, .int 32])
    (haddress : address.ty = .ptr ty) : ∃ size ∈ ([1, 2, 4] : List (BitVec 32)),
      accessSize address = some size ∧ ty = .int (8 * size.toNat) := by
  simp only [List.mem_cons, List.not_mem_nil, or_false] at hty
  rcases hty with rfl | rfl | rfl
  · exact ⟨1, by decide, by rw [accessSize, haddress]; rfl, rfl⟩
  · exact ⟨2, by decide, by rw [accessSize, haddress]; rfl, rfl⟩
  · exact ⟨4, by decide, by rw [accessSize, haddress]; rfl, rfl⟩

/-- One round of the loop: what the instruction becomes is before the iterator, which is at the next instruction. -/
theorem loop_cons (h : Instrumentable inst) (before rest : List (Inst Handler τ)) (n rounds : Nat) : ∃ code n',
    Rewrites inst n code n' ∧
      loop (rounds + 1) ⟨⟨before, inst :: rest⟩, n⟩ = loop rounds ⟨⟨before ++ code, rest⟩, n'⟩ := by
  have hloop : loop (rounds + 1) ⟨⟨before, inst :: rest⟩, n⟩ = (runOnInstruction inst ⟨⟨before, inst :: rest⟩, n⟩).bind
      fun r => loop rounds { r.2 with itr := r.2.itr.next } := rfl
  have happend : ∀ a b c : Inst Handler τ, before ++ [a, b, c] = before ++ [a] ++ [b] ++ [c] := fun a b c => by simp
  rw [hloop, runOnInstruction]
  by_cases htranslated : isTranslated inst = true
  · have hinstrumentable := h htranslated
    rw [if_pos htranslated]
    cases hop : inst.op with
    | load address =>
      rw [hop] at hinstrumentable
      obtain ⟨size, -, hsize, -⟩ := exists_accessSize hinstrumentable.1 hinstrumentable.2
      refine ⟨_, _, .load hop htranslated hsize, ?_⟩
      simp only [hsize, loadCode, happend]
      rfl
    | store value address =>
      rw [hop] at hinstrumentable
      obtain ⟨size, -, hsize, -⟩ := exists_accessSize hinstrumentable.1 hinstrumentable.2
      refine ⟨_, _, .store hop htranslated hsize, ?_⟩
      simp only [hsize, storeCode, happend]
      rfl
    | pointerCast | integerCast | call | other =>
      refine ⟨[inst], n, .other ?_, rfl⟩
      rw [isAccess, hop, Bool.and_false]
  · rw [if_neg htranslated]
    refine ⟨[inst], n, .other ?_, rfl⟩
    rw [isAccess, Bool.eq_false_iff.mpr htranslated, Bool.false_and]

/-- The loop ends before the rounds do. -/
theorem loop_rewritesAll (h : ∀ inst ∈ bb, Instrumentable inst) (before : List (Inst Handler τ)) (n : Nat) {rounds : Nat}
    (hrounds : bb.length < rounds) : ∃ code n', RewritesAll bb n code n' ∧
      loop rounds ⟨⟨before, bb⟩, n⟩ = some ((), ⟨⟨before ++ code, []⟩, n'⟩) := by
  induction bb generalizing before n rounds with
  | nil =>
    obtain ⟨rounds, rfl⟩ := Nat.exists_eq_add_of_lt hrounds
    refine ⟨[], n, .nil n, ?_⟩
    rw [List.append_nil]
    rfl
  | cons inst bb ih =>
    obtain ⟨rounds, rfl⟩ := Nat.exists_eq_add_one_of_ne_zero (Nat.ne_of_gt (Nat.lt_of_le_of_lt (Nat.zero_le _) hrounds))
    obtain ⟨hinst, hbb⟩ := List.forall_mem_cons.mp h
    obtain ⟨code, n', hrewrites, hloop⟩ := loop_cons hinst before bb n rounds
    obtain ⟨code', n'', hall, hloop'⟩ := ih hbb (before ++ code) n' (Nat.lt_of_succ_lt_succ hrounds)
    exact ⟨code ++ code', n'', .cons hrewrites hall, by rw [hloop, hloop', List.append_assoc]⟩

theorem runOnBasicBlock_rewritesAll (h : ∀ inst ∈ bb, Instrumentable inst) (n : Nat) : ∃ code n',
    runOnBasicBlock bb n = some (code, n') ∧ RewritesAll bb n code n' := by
  obtain ⟨code, n', hall, hloop⟩ := loop_rewritesAll h [] n (Nat.lt_succ_self _)
  refine ⟨code, n', ?_, hall⟩
  simp [runOnBasicBlock, hloop, Cursor.toList]

/-! ### What the code becomes -/

theorem Rewrites.le (h : Rewrites inst n code n') : n ≤ n' := by
  cases h with
  | other => exact Nat.le_refl n
  | load | store => exact Nat.le_add_right n 2

theorem Rewrites.accesses (h : Rewrites inst n code n') : ∀ inst ∈ code, isAccess inst = false := by
  cases h with
  | other h => simpa using h
  | load | store => simp [loadCode, storeCode, isAccess, isTranslated]

theorem RewritesAll.accesses (h : RewritesAll bb n code n') : ∀ inst ∈ code, isAccess inst = false := by
  induction h with
  | nil => exact fun inst hinst => absurd hinst List.not_mem_nil
  | cons h _ ih => exact List.forall_mem_append.mpr ⟨h.accesses, ih⟩

theorem Rewrites.others (h : Rewrites inst n code n') : ([inst].filter fun inst => !isAccess inst).Sublist code := by
  cases h with
  | other => exact List.filter_sublist
  | load hop htranslated | store hop htranslated =>
    have haccess : isAccess inst = true := by rw [isAccess, htranslated, hop]; rfl
    rw [List.filter_singleton, haccess]
    exact List.nil_sublist _

theorem RewritesAll.others (h : RewritesAll bb n code n') : (bb.filter fun inst => !isAccess inst).Sublist code := by
  induction h with
  | nil => exact List.Sublist.refl _
  | cons h _ ih =>
    rw [← List.singleton_append, List.filter_append]
    exact h.others.append ih

/-! ### What the code does -/

/-- The low bits of what the read handler returns are the value that a load has. -/
theorem setWidth_eq_ofLE {v : BitVec 32} {k : Nat} {data : List Byte} (h : v.toNat % 2 ^ (8 * k) = ofLE data) :
    v.setWidth (8 * k) = BitVec.ofNat (8 * k) (ofLE data) := by
  refine BitVec.eq_of_toNat_eq ?_
  rw [BitVec.toNat_setWidth, BitVec.toNat_ofNat, ← h, Nat.mod_mod]

theorem bytes_eq (k : Nat) : bytes (8 * k) = k := by
  rw [bytes]
  omega

theorem eval_result_set {env : Env} {id : Nat} {ty : Ty} {v : Val} (h : v.HasType ty) :
    (Ir.Operand.result ty id).eval (env.set id v) = some v := by
  rw [Operand.eval, Env.set, Function.update_self, Option.filter_some, if_pos (decide_eq_true h)]

theorem eval_int32 {env : Env} (v : BitVec 32) : (int32 v).eval env = some (.int 32 v) := by
  rw [int32, Operand.eval]
  exact if_pos rfl

theorem exec_pointerCast {address : Ir.Operand} {env : Env} {state : State σ} (id : Nat) :
    Inst.exec semantics (env, state) ⟨id, int8Ptr, .pointerCast address, []⟩ =
      match address.eval env with
      | some (.ptr a) => some (env.set id (.ptr a), state)
      | _ => none := rfl

/-- The code of a load, where the address is a pointer: the handler is called, and its result is cast. -/
theorem execAll_load {address : Ir.Operand} {size a v : BitVec 32} {env : Env} {state state' : State σ}
    (haddress : address.eval env = some (.ptr a))
    (hcall : semantics.call .readHandler [.ptr a, .int 32 size] state = some (some (.int 32 v), state')) (id n w : Nat) :
    execAll semantics (env, state) (loadCode n id (.int w) address size) =
      some (((env.set n (.ptr a)).set (n + 1) (.int 32 v)).set id (.int w (v.setWidth w)), state') := by
  have hpointer : (Ir.Operand.result int8Ptr n).eval (env.set n (.ptr a)) = some (.ptr a) := eval_result_set ⟨_, rfl⟩
  have hvalue : (Ir.Operand.result (.int 32) (n + 1)).eval ((env.set n (.ptr a)).set (n + 1) (.int 32 v)) =
      some (.int 32 v) := eval_result_set rfl
  rw [loadCode, execAll_cons, exec_pointerCast, haddress, Option.bind_some, execAll_cons]
  simp only [Inst.exec, List.mapM_cons, List.mapM_nil, hpointer, eval_int32, Option.bind_eq_bind, Option.bind_some,
    Option.pure_def, hcall, finish, execAll_cons, hvalue]
  rfl

/-- The code of a store, where the address is a pointer and the value an integer: the handler is called with the value
    cast. -/
theorem execAll_store {value address : Ir.Operand} {size a : BitVec 32} {w : Nat} {v : BitVec w} {env : Env}
    {state state' : State σ} (haddress : address.eval env = some (.ptr a))
    (hvalue : value.eval (env.set n (.ptr a)) = some (.int w v))
    (hcall : semantics.call .writeHandler [.ptr a, .int 32 size, .int 32 (v.setWidth 32)] state = some (none, state'))
    (id : Nat) : execAll semantics (env, state) (storeCode n id value address size) =
      some ((env.set n (.ptr a)).set (n + 1) (.int 32 (v.setWidth 32)), state') := by
  have hpointer : (Ir.Operand.result int8Ptr n).eval ((env.set n (.ptr a)).set (n + 1) (.int 32 (v.setWidth 32))) =
      some (.ptr a) := by
    rw [Operand.eval, Env.set, Function.update_of_ne (Nat.ne_of_lt (Nat.lt_succ_self n))]
    exact eval_result_set ⟨_, rfl⟩
  have hcast : (Ir.Operand.result (.int 32) (n + 1)).eval ((env.set n (.ptr a)).set (n + 1) (.int 32 (v.setWidth 32))) =
      some (.int 32 (v.setWidth 32)) := eval_result_set rfl
  rw [storeCode, execAll_cons, exec_pointerCast, haddress, Option.bind_some, execAll_cons]
  simp only [Inst.exec, hvalue, Option.bind_some, execAll_cons, List.mapM_cons, List.mapM_nil, hpointer,
    eval_int32, hcast, Option.bind_eq_bind, Option.pure_def, hcall, finish]
  rfl

theorem load_rel (hconforming : Conforming semantics) {address : Ir.Operand} {size : BitVec 32}
    (hsize : size ∈ ([1, 2, 4] : List (BitVec 32))) (hop : inst.op = .load address)
    (hty : inst.ty = .int (8 * size.toNat)) (hbelow : inst.Below bound) (hn : bound ≤ n) (hst : Matches bound s t) :
    Option.Rel (Matches bound) (inst.exec semantics s)
      (execAll semantics t (loadCode n inst.id inst.ty address size)) := by
  obtain ⟨env, state⟩ := s
  obtain ⟨env', state'⟩ := t
  obtain ⟨rfl, hvalues⟩ := hst
  have heval : address.eval env = address.eval env' :=
    address.eval_congr (hbelow.operands address (by rw [hop]; exact .head _)) hvalues
  cases hptr : address.eval env' with
  | none =>
    simp only [Inst.exec, hop, heval, hptr, loadCode, execAll_cons]
    exact .none
  | some val =>
    cases val with
    | int w v =>
      simp only [Inst.exec, hop, heval, hptr, loadCode, execAll_cons]
      exact .none
    | ptr a =>
      obtain ⟨v, hcall, hv⟩ := hconforming.read a size state hsize
      rw [hty, execAll_load hptr hcall, setWidth_eq_ofLE hv]
      simp only [Inst.exec, hop, heval, hptr, hty, bytes_eq]
      exact .some ⟨rfl, ((hvalues.set_new hn).set_new (Nat.le_succ_of_le hn)).set⟩

theorem exec_store {value address : Ir.Operand} (hop : inst.op = .store value address) :
    inst.exec semantics s =
      match address.eval s.1 with
      | some (.ptr a) =>
        match value.eval s.1 with
        | some (.int w v) => some (s.1, { s.2 with memory := s.2.memory.store a (toLE (bytes w) v.toNat) })
        | _ => none
      | _ => none := by
  simp only [Inst.exec, hop]
  rcases address.eval s.1 with _ | ⟨_ | _⟩ <;> rcases value.eval s.1 with _ | ⟨_ | _⟩ <;> rfl

theorem store_rel (hconforming : Conforming semantics) {value address : Ir.Operand} {size : BitVec 32}
    (hsize : size ∈ ([1, 2, 4] : List (BitVec 32))) (hop : inst.op = .store value address)
    (hty : value.ty = .int (8 * size.toNat)) (hbelow : inst.Below bound) (hn : bound ≤ n) (hst : Matches bound s t) :
    Option.Rel (Matches bound) (inst.exec semantics s)
      (execAll semantics t (storeCode n inst.id value address size)) := by
  obtain ⟨env, state⟩ := s
  obtain ⟨env', state'⟩ := t
  obtain ⟨rfl, hvalues⟩ := hst
  have hvalue : value.Below bound := hbelow.operands value (by rw [hop]; exact .head _)
  have heval : address.eval env = address.eval env' :=
    address.eval_congr (hbelow.operands address (by rw [hop]; exact .tail _ (.head _))) hvalues
  rw [exec_store hop, heval]
  cases hptr : address.eval env' with
  | none =>
    rw [storeCode, execAll_cons, exec_pointerCast, hptr]
    exact .none
  | some val =>
    cases val with
    | int w v =>
      rw [storeCode, execAll_cons, exec_pointerCast, hptr]
      exact .none
    | ptr a =>
      have hset : value.eval env = value.eval (env'.set n (.ptr a)) := value.eval_congr hvalue (hvalues.set_new hn)
      rw [hset]
      cases hval : value.eval (env'.set n (.ptr a)) with
      | none =>
        rw [storeCode, execAll_cons, exec_pointerCast, hptr, Option.bind_some, execAll_cons]
        simp only [Inst.exec, hval]
        exact .none
      | some val =>
        have hvalTy := Operand.hasType_of_eval hval
        rw [hty] at hvalTy
        cases val with
        | ptr b =>
          obtain ⟨element, hty⟩ := hvalTy
          cases hty
        | int w v =>
          cases hvalTy
          have hcall := hconforming.write a size (v.setWidth 32) state hsize
          -- The value has at most 32 bits, so the cast keeps it.
          have hcast : (v.setWidth 32).toNat = v.toNat := by
            rw [BitVec.toNat_setWidth, Nat.mod_eq_of_lt
              (Nat.lt_of_lt_of_le v.isLt (Nat.pow_le_pow_right (by decide) (le_of_mem_sizes hsize)))]
          rw [hcast] at hcall
          rw [execAll_store hptr hval hcall]
          simp only [bytes_eq]
          exact .some ⟨rfl, (hvalues.set_new hn).set_new (Nat.le_succ_of_le hn)⟩

/-- What an instruction becomes does what the instruction does. -/
theorem Rewrites.exec (h : Rewrites inst n code n') (hinst : Instrumentable inst) (hconforming : Conforming semantics)
    (hbelow : inst.Below bound) (hn : bound ≤ n) (hst : Matches bound s t) :
    Option.Rel (Matches bound) (inst.exec semantics s) (execAll semantics t code) := by
  cases h with
  | other =>
    have hrun : execAll semantics t [inst] = inst.exec semantics t := Option.bind_fun_some _
    rw [hrun]
    exact Inst.exec_congr hbelow hst
  | load hop htranslated hsize =>
    have hinstrumentable := hinst htranslated
    rw [hop] at hinstrumentable
    obtain ⟨size, hmem, hsize', hty⟩ := exists_accessSize hinstrumentable.1 hinstrumentable.2
    cases hsize'.symm.trans hsize
    exact load_rel hconforming hmem hop hty hbelow hn hst
  | store hop htranslated hsize =>
    have hinstrumentable := hinst htranslated
    rw [hop] at hinstrumentable
    obtain ⟨size, hmem, hsize', hty⟩ := exists_accessSize hinstrumentable.1 hinstrumentable.2
    cases hsize'.symm.trans hsize
    exact store_rel hconforming hmem hop hty hbelow hn hst

theorem RewritesAll.exec (h : RewritesAll bb n code n') (hbb : ∀ inst ∈ bb, Instrumentable inst)
    (hconforming : Conforming semantics) (hbelow : ∀ inst ∈ bb, inst.Below bound) (hn : bound ≤ n)
    (hst : Matches bound s t) : Option.Rel (Matches bound) (execAll semantics s bb) (execAll semantics t code) := by
  induction h generalizing s t with
  | nil => exact .some hst
  | cons h _ ih =>
    obtain ⟨hinst, hbb⟩ := List.forall_mem_cons.mp hbb
    obtain ⟨hbelowInst, hbelow⟩ := List.forall_mem_cons.mp hbelow
    rw [execAll_cons, execAll_append]
    exact rel_bind (h.exec hinst hconforming hbelowInst hn hst) fun _ _ hst =>
      ih hbb hbelow (Nat.le_trans hn h.le) hst

theorem RewritesAll.le (h : RewritesAll bb n code n') : n ≤ n' := by
  induction h with
  | nil => exact Nat.le_refl _
  | cons h _ ih => exact Nat.le_trans h.le ih

theorem RewritesAll.preserves (h : RewritesAll bb n code n') (hbb : ∀ inst ∈ bb, Instrumentable inst)
    (hconforming : Conforming semantics) (hbelow : ∀ inst ∈ bb, inst.Below bound) (hn : bound ≤ n) :
    Preserves semantics bound bb code :=
  ⟨fun _ => h.exec hbb hconforming hbelow hn ⟨rfl, Env.Agree.refl⟩, h.accesses, h.others⟩

/-- The pass ends, and the block that it leaves does what the block did before. -/
theorem runOnBasicBlock_preserves (hconforming : Conforming semantics) {supply : Nat}
    (hbelow : ∀ inst ∈ bb, inst.Below supply) (hbb : ∀ inst ∈ bb, Instrumentable inst) : ∃ bb' supply',
      runOnBasicBlock bb supply = some (bb', supply') ∧ Preserves semantics supply bb bb' := by
  obtain ⟨bb', supply', hrun, hall⟩ := runOnBasicBlock_rewritesAll hbb supply
  exact ⟨bb', supply', hrun, hall.preserves hbb hconforming hbelow (Nat.le_refl _)⟩

/-- Handlers that read and write memory. All bits above those of the value are set. -/
def memoryHandlers : Semantics Handler Unit Unit where
  call
    | .readHandler, [.ptr p, .int 32 n], s =>
      some (some (.int 32 (BitVec.ofNat 32 (ofLE (s.memory.load p n.toNat) + 2 ^ (8 * n.toNat) * 0xFFFFFFFF))), s)
    | .writeHandler, [.ptr p, .int 32 n, .int 32 v], s =>
      some (none, { s with memory := s.memory.store p (toLE n.toNat v.toNat) })
    | _, _, _ => none
  other _ _ s := some (none, s)

theorem memoryHandlers_conforming : Conforming memoryHandlers where
  read p n s hn := by
    refine ⟨_, rfl, ?_⟩
    have hle : 8 * n.toNat ≤ 32 := le_of_mem_sizes hn
    have hlt : ofLE (s.memory.load p n.toNat) < 2 ^ (8 * n.toNat) :=
      (ofLE_lt _).trans_eq (by rw [WordMemory.length_load, pow_mul]; rfl)
    rw [BitVec.toNat_ofNat, Nat.mod_mod_of_dvd _ (Nat.pow_dvd_pow 2 hle), Nat.add_mul_mod_self_left,
      Nat.mod_eq_of_lt hlt]
  write _ _ _ _ _ := rfl

/-- A halfword is copied. -/
def copyHalfword : List (Inst Handler Unit) :=
  [⟨1, .int 16, .load (.const (.ptr (.int 16)) (.ptr 0x1000)), ["translated_memory_access"]⟩,
    ⟨2, .int 32, .other () [.result (.int 16) 1], []⟩,
    ⟨3, .void, .store (.result (.int 16) 1) (.const (.ptr (.int 16)) (.ptr 0x2000)), ["translated_memory_access"]⟩]

theorem runOnBasicBlock_preserves_copyHalfword : ∃ bb' supply',
    runOnBasicBlock copyHalfword 4 = some (bb', supply') ∧ Preserves memoryHandlers 4 copyHalfword bb' :=
  have hbelow : ∀ inst ∈ copyHalfword, inst.Below 4 := by simp [copyHalfword, Inst.below_iff, Op.operands, Operand.Below]
  have hinstrumentable : ∀ inst ∈ copyHalfword, Instrumentable inst := by
    simp [copyHalfword, Instrumentable, isTranslated, Operand.ty]
  runOnBasicBlock_preserves memoryHandlers_conforming hbelow hinstrumentable

/-- So do all blocks of a module. -/
theorem instrumentMemoryAccess_preserves (hconforming : Conforming semantics) {blocks : List (List (Inst Handler τ))}
    (hbelow : ∀ bb ∈ blocks, ∀ inst ∈ bb, inst.Below bound) (hblocks : ∀ bb ∈ blocks, ∀ inst ∈ bb, Instrumentable inst)
    (hn : bound ≤ n) : ∃ blocks' n', instrumentMemoryAccess blocks n = some (blocks', n') ∧
      List.Forall₂ (Preserves semantics bound) blocks blocks' := by
  induction blocks generalizing n with
  | nil => exact ⟨[], n, rfl, .nil⟩
  | cons bb blocks ih =>
    obtain ⟨hbelowBb, hbelow⟩ := List.forall_mem_cons.mp hbelow
    obtain ⟨hbb, hblocks⟩ := List.forall_mem_cons.mp hblocks
    obtain ⟨bb', n', hrun, hall⟩ := runOnBasicBlock_rewritesAll hbb n
    obtain ⟨blocks', n'', hruns, hpreserves⟩ := ih hbelow hblocks (Nat.le_trans hn hall.le)
    refine ⟨bb' :: blocks', n'', ?_, .cons (hall.preserves hbb hconforming hbelowBb hn) hpreserves⟩
    simp only [instrumentMemoryAccess, hrun, hruns, Option.bind_eq_bind, Option.bind_some, Option.pure_def]

end Avatar.Translator.InstrumentMemoryAccessPass
