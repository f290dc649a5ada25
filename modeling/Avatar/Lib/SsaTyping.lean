import Avatar.Lib.Ssa

/-! Types of the language. A typed value has a result of its type, and typed code runs to its end: no
    operand is missing, and no shift is by the width of its operand or more. -/

namespace Ssa
open Bytes

inductive Val.HasType {κ : Type} : Val κ → Ty → Prop where
  | i1 (v : Bool) : HasType (.i1 v) .i1
  | i16 (v : BitVec 16) : HasType (.i16 v) .i16
  | i32 (v : BitVec 32) : HasType (.i32 v) .i32

inductive BinaryOp.Arithmetic : BinaryOp → Prop where
  | add : Arithmetic .add
  | sub : Arithmetic .sub
  | and : Arithmetic .and
  | or : Arithmetic .or
  | xor : Arithmetic .xor

inductive BinaryOp.Shift : BinaryOp → Prop where
  | shl : Shift .shl
  | lshr : Shift .lshr

inductive BinaryOp.Logical : BinaryOp → Prop where
  | and : Logical .and
  | or : Logical .or
  | xor : Logical .xor

variable {ι κ : Type}

/-- The types of values, from those of the phi nodes and of the results of the instructions before. -/
inductive Value.HasType (phi : ι → Option Ty) (results : List (Option Ty)) : Value ι κ → Ty → Prop where
  | phi {id : ι} {ty : Ty} (h : phi id = some ty) : HasType phi results (.phi id) ty
  | int32 {v : BitVec 32} : HasType phi results (.int32 v) .i32
  | arithmetic {op : BinaryOp} {lhs rhs : Value ι κ} (hop : op.Arithmetic) (hl : HasType phi results lhs .i32)
      (hr : HasType phi results rhs .i32) : HasType phi results (.binary op lhs rhs) .i32
  | shift {op : BinaryOp} {lhs : Value ι κ} {n : BitVec 32} (hop : op.Shift) (hl : HasType phi results lhs .i32)
      (hn : n.toNat < 32) : HasType phi results (.binary op lhs (.int32 n)) .i32
  | logical {op : BinaryOp} {lhs rhs : Value ι κ} (hop : op.Logical) (hl : HasType phi results lhs .i1)
      (hr : HasType phi results rhs .i1) : HasType phi results (.binary op lhs rhs) .i1
  | icmp {p : Comparison} {lhs rhs : Value ι κ} (hl : HasType phi results lhs .i32)
      (hr : HasType phi results rhs .i32) : HasType phi results (.icmp p lhs rhs) .i1
  | icmpEq {lhs rhs : Value ι κ} (hl : HasType phi results lhs .i1) (hr : HasType phi results rhs .i1) :
      HasType phi results (.icmp .eq lhs rhs) .i1
  | icmpNe {lhs rhs : Value ι κ} (hl : HasType phi results lhs .i1) (hr : HasType phi results rhs .i1) :
      HasType phi results (.icmp .ne lhs rhs) .i1
  | notI1 {v : Value ι κ} (h : HasType phi results v .i1) : HasType phi results (.not v) .i1
  | notI32 {v : Value ι κ} (h : HasType phi results v .i32) : HasType phi results (.not v) .i32
  | zextI1 {v : Value ι κ} (h : HasType phi results v .i1) : HasType phi results (.zext v) .i32
  | zextI16 {v : Value ι κ} (h : HasType phi results v .i16) : HasType phi results (.zext v) .i32
  | trunc {v : Value ι κ} (h : HasType phi results v .i32) : HasType phi results (.trunc v) .i16
  | intToPtr {v : Value ι κ} (h : HasType phi results v .i32) : HasType phi results (.intToPtr v) .i32
  | ptrToInt {v : Value ι κ} (h : HasType phi results v .i32) : HasType phi results (.ptrToInt v) .i32
  | gep {size : BitVec 32} {base index : Value ι κ} (hb : HasType phi results base .i32)
      (hi : HasType phi results index .i32) : HasType phi results (.gep size base index) .i32
  | result {n : Nat} {ty : Ty} (h : results[n]? = some (some ty)) : HasType phi results (.result n) ty

/-- The type of the result of an instruction that is not a terminator and accesses memory only; a store has none. -/
inductive Instr.HasType (phi : ι → Option Ty) (results : List (Option Ty)) : Instr ι κ → Option Ty → Prop where
  | load16 {ptr : Value ι κ} {md : Option String} (h : ptr.HasType phi results .i32) :
      HasType phi results (.load .i16 ptr md) (some .i16)
  | load32 {ptr : Value ι κ} {md : Option String} (h : ptr.HasType phi results .i32) :
      HasType phi results (.load .i32 ptr md) (some .i32)
  | store16 {val ptr : Value ι κ} {md : Option String} (hv : val.HasType phi results .i16)
      (hp : ptr.HasType phi results .i32) : HasType phi results (.store val ptr md) none
  | store32 {val ptr : Value ι κ} {md : Option String} (hv : val.HasType phi results .i32)
      (hp : ptr.HasType phi results .i32) : HasType phi results (.store val ptr md) none

/-- The types of the results of code. -/
inductive CodeHasType (phi : ι → Option Ty) : List (Instr ι κ) → List (Option Ty) → Prop where
  | nil : CodeHasType phi [] []
  | snoc {code : List (Instr ι κ)} {results : List (Option Ty)} {instr : Instr ι κ} {ty : Option Ty}
      (hcode : CodeHasType phi code results) (hinstr : instr.HasType phi results ty) :
      CodeHasType phi (code ++ [instr]) (results ++ [ty])

variable {phi : ι → Option Ty} {results results' : List (Option Ty)}

/-- More results leave the types of values as they are. -/
theorem Value.HasType.mono {v : Value ι κ} {ty : Ty} (h : v.HasType phi results ty) (hresults : results <+: results') :
    v.HasType phi results' ty := by
  induction h with
  | phi h => exact .phi h
  | int32 => exact .int32
  | arithmetic hop _ _ ihl ihr => exact .arithmetic hop ihl ihr
  | shift hop _ hn ihl => exact .shift hop ihl hn
  | logical hop _ _ ihl ihr => exact .logical hop ihl ihr
  | icmp _ _ ihl ihr => exact .icmp ihl ihr
  | icmpEq _ _ ihl ihr => exact .icmpEq ihl ihr
  | icmpNe _ _ ihl ihr => exact .icmpNe ihl ihr
  | notI1 _ ih => exact .notI1 ih
  | notI32 _ ih => exact .notI32 ih
  | zextI1 _ ih => exact .zextI1 ih
  | zextI16 _ ih => exact .zextI16 ih
  | trunc _ ih => exact .trunc ih
  | intToPtr _ ih => exact .intToPtr ih
  | ptrToInt _ ih => exact .ptrToInt ih
  | gep _ _ ihb ihi => exact .gep ihb ihi
  | @result n ty h =>
    obtain ⟨tail, rfl⟩ := hresults
    obtain ⟨hn, -⟩ := List.getElem?_eq_some_iff.mp h
    exact .result (by rw [List.getElem?_append_left hn, h])

theorem CodeHasType.length_eq {code : List (Instr ι κ)} (h : CodeHasType phi code results) :
    results.length = code.length := by
  induction h with
  | nil => rfl
  | snoc _ _ ih => rw [List.length_append, List.length_append, ih, List.length_singleton, List.length_singleton]

theorem CodeHasType.not_isTerminator {code : List (Instr ι κ)} (h : CodeHasType phi code results) :
    ∀ instr ∈ code, instr.isTerminator = false := by
  induction h with
  | nil => exact fun instr h => absurd h List.not_mem_nil
  | snoc _ hinstr ih =>
    intro instr h
    rcases List.mem_append.mp h with h | h
    · exact ih instr h
    · rw [List.mem_singleton.mp h]
      cases hinstr <;> rfl

/-! ### Execution of typed code -/

/-- An environment whose phi nodes and results have their types. -/
structure Env.HasType (env : Env ι κ) (phi : ι → Option Ty) (results : List (Option Ty)) : Prop where
  phi : ∀ id ty, phi id = some ty → ∃ x, env.phi id = some x ∧ x.HasType ty
  length_eq : env.results.length = results.length
  results : ∀ (n : Nat) ty, results[n]? = some (some ty) → ∃ x, env.results[n]? = some (some x) ∧ x.HasType ty

theorem Val.HasType.i1_inv {x : Val κ} (h : x.HasType .i1) : ∃ v, x = .i1 v := by
  cases h with
  | i1 v => exact ⟨v, rfl⟩

theorem Val.HasType.i16_inv {x : Val κ} (h : x.HasType .i16) : ∃ v, x = .i16 v := by
  cases h with
  | i16 v => exact ⟨v, rfl⟩

theorem Val.HasType.i32_inv {x : Val κ} (h : x.HasType .i32) : ∃ v, x = .i32 v := by
  cases h with
  | i32 v => exact ⟨v, rfl⟩

variable {env : Env ι κ}

/-- A typed value has a result, which has its type. -/
theorem Value.HasType.eval {v : Value ι κ} {ty : Ty} (h : v.HasType phi results ty) (henv : env.HasType phi results) :
    ∃ x, v.eval env = some x ∧ x.HasType ty := by
  induction h with
  | phi h => exact henv.phi _ _ h
  | int32 => exact ⟨_, rfl, .i32 _⟩
  | arithmetic hop _ _ ihl ihr =>
    obtain ⟨_, hl, htl⟩ := ihl
    obtain ⟨_, hr, htr⟩ := ihr
    obtain ⟨x, rfl⟩ := htl.i32_inv
    obtain ⟨y, rfl⟩ := htr.i32_inv
    rw [Value.eval, hl, hr]
    cases hop <;> exact ⟨_, rfl, .i32 _⟩
  | shift hop _ hn ihl =>
    obtain ⟨_, hl, htl⟩ := ihl
    obtain ⟨x, rfl⟩ := htl.i32_inv
    rw [Value.eval, hl, Value.eval]
    cases hop <;> exact ⟨_, congrArg (Option.map Val.i32) (if_pos hn), .i32 _⟩
  | logical hop _ _ ihl ihr =>
    obtain ⟨_, hl, htl⟩ := ihl
    obtain ⟨_, hr, htr⟩ := ihr
    obtain ⟨x, rfl⟩ := htl.i1_inv
    obtain ⟨y, rfl⟩ := htr.i1_inv
    rw [Value.eval, hl, hr]
    cases hop <;> exact ⟨_, rfl, .i1 _⟩
  | icmp _ _ ihl ihr =>
    obtain ⟨_, hl, htl⟩ := ihl
    obtain ⟨_, hr, htr⟩ := ihr
    obtain ⟨x, rfl⟩ := htl.i32_inv
    obtain ⟨y, rfl⟩ := htr.i32_inv
    rw [Value.eval, hl, hr]
    exact ⟨_, rfl, .i1 _⟩
  | icmpEq _ _ ihl ihr | icmpNe _ _ ihl ihr =>
    obtain ⟨_, hl, htl⟩ := ihl
    obtain ⟨_, hr, htr⟩ := ihr
    obtain ⟨x, rfl⟩ := htl.i1_inv
    obtain ⟨y, rfl⟩ := htr.i1_inv
    rw [Value.eval, hl, hr]
    exact ⟨_, rfl, .i1 _⟩
  | notI1 _ ih | zextI1 _ ih =>
    obtain ⟨_, hv, ht⟩ := ih
    obtain ⟨x, rfl⟩ := ht.i1_inv
    rw [Value.eval, hv]
    exact ⟨_, rfl, by constructor⟩
  | zextI16 _ ih =>
    obtain ⟨_, hv, ht⟩ := ih
    obtain ⟨x, rfl⟩ := ht.i16_inv
    rw [Value.eval, hv]
    exact ⟨_, rfl, .i32 _⟩
  | notI32 _ ih | trunc _ ih | intToPtr _ ih | ptrToInt _ ih =>
    obtain ⟨_, hv, ht⟩ := ih
    obtain ⟨x, rfl⟩ := ht.i32_inv
    rw [Value.eval, hv]
    exact ⟨_, rfl, by constructor⟩
  | gep _ _ ihb ihi =>
    obtain ⟨_, hb, htb⟩ := ihb
    obtain ⟨_, hi, hti⟩ := ihi
    obtain ⟨x, rfl⟩ := htb.i32_inv
    obtain ⟨y, rfl⟩ := hti.i32_inv
    rw [Value.eval, hb, hi]
    exact ⟨_, rfl, .i32 _⟩
  | result h =>
    obtain ⟨x, hx, ht⟩ := henv.results _ _ h
    exact ⟨x, by rw [Value.eval, hx]; rfl, ht⟩

/-- One more result. -/
theorem Env.HasType.snoc (h : env.HasType phi results) {x : Option (Val κ)} {ty : Option Ty}
    (hx : ∀ t, ty = some t → ∃ v, x = some v ∧ v.HasType t) :
    Env.HasType { env with results := env.results ++ [x] } phi (results ++ [ty]) where
  phi := h.phi
  length_eq := by simp only [List.length_append, h.length_eq, List.length_singleton]
  results n t hn := by
    rcases Nat.lt_or_ge n results.length with hlt | hge
    · rw [List.getElem?_append_left hlt] at hn
      rw [List.getElem?_append_left (h.length_eq ▸ hlt)]
      exact h.results n t hn
    · rw [List.getElem?_append_right hge, List.getElem?_singleton] at hn
      split at hn
      · rename_i hzero
        obtain ⟨v, rfl, hv⟩ := hx t (Option.some.inj hn)
        exact ⟨v, by rw [List.getElem?_append_right (h.length_eq ▸ hge), h.length_eq, hzero]; rfl, hv⟩
      · cases hn

variable [DecidableEq κ] {m : Machine κ}

/-- A typed instruction accesses memory and nothing else. -/
theorem Instr.HasType.exec {instr : Instr ι κ} {ty : Option Ty} (h : instr.HasType phi results ty)
    (henv : env.HasType phi results) :
    ∃ x m', Instr.exec (env, m) instr = some ({ env with results := env.results ++ [x] }, m') ∧
      m'.members = m.members ∧ Env.HasType { env with results := env.results ++ [x] } phi (results ++ [ty]) := by
  cases h with
  | load16 h | load32 h =>
    obtain ⟨_, ha, hta⟩ := h.eval henv
    obtain ⟨a, rfl⟩ := hta.i32_inv
    simp only [Instr.exec, ha]
    refine ⟨_, _, rfl, rfl, henv.snoc fun t ht => ?_⟩
    cases ht
    exact ⟨_, rfl, by constructor⟩
  | store16 hv hp =>
    obtain ⟨_, ha, hta⟩ := hp.eval henv
    obtain ⟨_, hx, htx⟩ := hv.eval henv
    obtain ⟨a, rfl⟩ := hta.i32_inv
    obtain ⟨x, rfl⟩ := htx.i16_inv
    simp only [Instr.exec, ha, hx]
    exact ⟨_, _, rfl, rfl, henv.snoc fun t ht => by cases ht⟩
  | store32 hv hp =>
    obtain ⟨_, ha, hta⟩ := hp.eval henv
    obtain ⟨_, hx, htx⟩ := hv.eval henv
    obtain ⟨a, rfl⟩ := hta.i32_inv
    obtain ⟨x, rfl⟩ := htx.i32_inv
    simp only [Instr.exec, ha, hx]
    exact ⟨_, _, rfl, rfl, henv.snoc fun t ht => by cases ht⟩

/-- Typed code runs to its end. -/
theorem CodeHasType.execAll {code : List (Instr ι κ)} (h : CodeHasType phi code results) {values : ι → Option (Val κ)}
    (hvalues : ∀ id ty, phi id = some ty → ∃ x, values id = some x ∧ x.HasType ty) :
    ∃ env m', execAll (⟨values, []⟩, m) code = some (env, m') ∧ env.phi = values ∧ m'.members = m.members ∧
      env.HasType phi results := by
  induction h with
  | nil => exact ⟨_, m, rfl, rfl, rfl, hvalues, rfl, fun n ty h => by cases h⟩
  | snoc _ hinstr ih =>
    obtain ⟨env, m', hrun, hphi, hmembers, henv⟩ := ih
    obtain ⟨x, m'', hexec, hmembers', henv'⟩ := hinstr.exec henv (m := m')
    refine ⟨{ env with results := env.results ++ [x] }, m'', ?_, hphi, hmembers'.trans hmembers, henv'⟩
    rw [execAll_concat, hrun, Option.bind_some, hexec]

end Ssa
