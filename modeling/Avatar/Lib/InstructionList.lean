import Mathlib.Data.List.Basic
import Mathlib.Logic.Function.Basic
import Avatar.Lib.WordMemory

/-! Basic blocks as lists of instructions that have identities, and a cursor that goes through a block while it is
    changed. `κ` names the functions that can be called, `τ` the operations of which nothing is said, and `σ` is the part
    of the state beside memory.

    An operand names the instruction whose result it is. What has no defined result, or a result of another type than
    the operand has, is not defined. -/

namespace Ir
open Bytes

/-- A pointer knows the type that it points to. -/
inductive Ty where
  | int (width : Nat)
  | ptr (element : Ty)
  | void
  | other (number : Nat)
deriving DecidableEq, Repr

inductive Val where
  | int (width : Nat) (v : BitVec width)
  | ptr (address : BitVec 32)
deriving DecidableEq, Repr

inductive Operand where
  | const (ty : Ty) (v : Val)
  | result (ty : Ty) (id : Nat)
deriving DecidableEq, Repr

inductive Op (κ τ : Type) where
  | load (address : Operand)
  | store (value address : Operand)
  /-- To the type of the instruction. -/
  | pointerCast (value : Operand)
  /-- To the type of the instruction, without a sign. -/
  | integerCast (value : Operand)
  | call (callee : κ) (args : List Operand)
  | other (operation : τ) (operands : List Operand)
deriving DecidableEq, Repr

/-- An instruction, with the kinds of its metadata. -/
structure Inst (κ τ : Type) where
  id : Nat
  ty : Ty
  op : Op κ τ
  metadata : List String
deriving DecidableEq, Repr

def Operand.ty : Operand → Ty
  | const ty _ | result ty _ => ty

def Op.operands {κ τ : Type} : Op κ τ → List Operand
  | load address => [address]
  | store value address => [value, address]
  | pointerCast value | integerCast value => [value]
  | call _ args => args
  | other _ operands => operands

/-! ### Execution -/

structure State (σ : Type) where
  memory : WordMemory 32
  rest : σ

abbrev Env := Nat → Option Val

/-- What a function or an operation does with its arguments: its result, if it has one, and the state. -/
structure Semantics (κ τ σ : Type) where
  call : κ → List Val → State σ → Option (Option Val × State σ)
  other : τ → List Val → State σ → Option (Option Val × State σ)

def Val.HasType : Val → Ty → Prop
  | int w _, ty => ty = .int w
  | ptr _, ty => ∃ element, ty = .ptr element

instance : (v : Val) → (ty : Ty) → Decidable (v.HasType ty)
  | .int w _, ty => inferInstanceAs (Decidable (ty = .int w))
  | .ptr _, .ptr element => isTrue ⟨element, rfl⟩
  | .ptr _, .int _ | .ptr _, .void | .ptr _, .other _ => isFalse fun ⟨_, h⟩ => nomatch h

def Operand.eval (env : Env) : Operand → Option Val
  | const ty v => if v.HasType ty then some v else none
  | result ty id => (env id).filter fun v => v.HasType ty

/-- The number of bytes of an integer. -/
def bytes (width : Nat) : Nat := (width + 7) / 8

section Execute
variable {κ τ σ : Type} (semantics : Semantics κ τ σ)

def Env.set (env : Env) (id : Nat) (v : Val) : Env := Function.update env id (some v)

/-- The result of an instruction, if it has one, becomes the value of its identity. -/
def finish (id : Nat) (env : Env) : Option Val × State σ → Env × State σ
  | (some v, s) => (env.set id v, s)
  | (none, s) => (env, s)

def Inst.exec (s : Env × State σ) (inst : Inst κ τ) : Option (Env × State σ) :=
  match inst.op with
  | .load address =>
    match address.eval s.1, inst.ty with
    | some (.ptr a), .int w =>
      some (s.1.set inst.id (.int w (BitVec.ofNat w (ofLE (s.2.memory.load a (bytes w))))), s.2)
    | _, _ => none
  | .store value address =>
    match value.eval s.1, address.eval s.1 with
    | some (.int w v), some (.ptr a) =>
      some (s.1, { s.2 with memory := s.2.memory.store a (toLE (bytes w) v.toNat) })
    | _, _ => none
  | .pointerCast value =>
    match value.eval s.1 with
    | some (.ptr a) => some (s.1.set inst.id (.ptr a), s.2)
    | _ => none
  | .integerCast value =>
    match value.eval s.1, inst.ty with
    | some (.int _ v), .int w => some (s.1.set inst.id (.int w (v.setWidth w)), s.2)
    | _, _ => none
  | .call callee args => do
    let arguments ← args.mapM (Operand.eval s.1)
    let result ← semantics.call callee arguments s.2
    return finish inst.id s.1 result
  | .other operation operands => do
    let arguments ← operands.mapM (Operand.eval s.1)
    let result ← semantics.other operation arguments s.2
    return finish inst.id s.1 result

def execAll (s : Env × State σ) (code : List (Inst κ τ)) : Option (Env × State σ) := code.foldlM (Inst.exec semantics) s

end Execute

/-! ### Identities below a bound -/

def Operand.Below (bound : Nat) : Operand → Prop
  | const .. => True
  | result _ id => id < bound

instance (bound : Nat) : (o : Operand) → Decidable (o.Below bound)
  | .const .. => isTrue trivial
  | .result _ id => inferInstanceAs (Decidable (id < bound))

/-- All identities that an instruction mentions are below a bound. -/
@[mk_iff]
structure Inst.Below {κ τ : Type} (bound : Nat) (inst : Inst κ τ) : Prop where
  id : inst.id < bound
  operands : ∀ o ∈ inst.op.operands, o.Below bound

/-- The identities below a bound have the same values. -/
def Env.Agree (bound : Nat) (env env' : Env) : Prop := ∀ id < bound, env id = env' id

/-- The same state, and the same values of the identities below a bound -/
structure Matches {σ : Type} (bound : Nat) (s t : Env × State σ) : Prop where
  state : s.2 = t.2
  values : s.1.Agree bound t.1

section Agree
variable {κ τ σ : Type} {semantics : Semantics κ τ σ} {bound id : Nat} {env env' : Env} {v : Val} {s t : Env × State σ}

theorem Env.Agree.refl : env.Agree bound env := fun _ _ => rfl

theorem Env.Agree.set (h : env.Agree bound env') : (env.set id v).Agree bound (env'.set id v) := by
  intro id' hid'
  by_cases heq : id' = id
  · rw [heq, Env.set, Env.set, Function.update_self, Function.update_self]
  · rw [Env.set, Env.set, Function.update_of_ne heq, Function.update_of_ne heq, h id' hid']

/-- A new identity gets a value. -/
theorem Env.Agree.set_new (h : env.Agree bound env') (hid : bound ≤ id) : env.Agree bound (env'.set id v) := by
  intro id' hid'
  rw [Env.set, Function.update_of_ne (Nat.ne_of_lt (Nat.lt_of_lt_of_le hid' hid)), h id' hid']

theorem Operand.eval_congr {o : Operand} (ho : o.Below bound) (h : env.Agree bound env') : o.eval env = o.eval env' := by
  cases o with
  | const ty v => rfl
  | result ty id => rw [eval, eval, h id ho]

theorem Operand.hasType_of_eval {o : Operand} (h : o.eval env = some v) : v.HasType o.ty := by
  cases o with
  | const ty w =>
    rw [eval] at h
    split at h
    · rename_i hty
      cases h
      exact hty
    · cases h
  | result ty id => exact of_decide_eq_true (Option.mem_filter_iff.mp h).2

theorem mapM_eval_congr {operands : List Operand} (ho : ∀ o ∈ operands, o.Below bound) (h : env.Agree bound env') :
    operands.mapM (Operand.eval env) = operands.mapM (Operand.eval env') := by
  induction operands with
  | nil => rfl
  | cons o operands ih =>
    obtain ⟨ho, hos⟩ := List.forall_mem_cons.mp ho
    rw [List.mapM_cons, List.mapM_cons, Operand.eval_congr ho h, ih hos]

theorem rel_bind {α α' β β' : Type} {R : α → α' → Prop} {S : β → β' → Prop} {x : Option α} {y : Option α'}
    {f : α → Option β} {g : α' → Option β'} (h : Option.Rel R x y) (hfg : ∀ a b, R a b → Option.Rel S (f a) (g b)) :
    Option.Rel S (x.bind f) (y.bind g) := by
  cases h with
  | none => exact .none
  | some h => exact hfg _ _ h

theorem rel_refl {α : Type} : ∀ x : Option α, Option.Rel Eq x x
  | none => .none
  | some _ => .some rfl

theorem Matches.finish (h : env.Agree bound env') (id : Nat) (result : Option Val × State σ) :
    Matches bound (finish id env result) (finish id env' result) := by
  rcases result with ⟨_ | v, s⟩
  · exact ⟨rfl, h⟩
  · exact ⟨rfl, h.set⟩

/-- An instruction does the same to states that match. -/
theorem Inst.exec_congr {inst : Inst κ τ} (hinst : inst.Below bound) (h : Matches bound s t) :
    Option.Rel (Matches bound) (inst.exec semantics s) (inst.exec semantics t) := by
  obtain ⟨env, state⟩ := s
  obtain ⟨env', state'⟩ := t
  obtain ⟨rfl, h⟩ := h
  have heval : ∀ o ∈ inst.op.operands, o.eval env = o.eval env' := fun o ho => o.eval_congr (hinst.operands o ho) h
  obtain ⟨id, ty, op, metadata⟩ := inst
  cases op with
  | load address =>
    simp only [exec, ← heval address (.head _)]
    split
    · exact .some ⟨rfl, h.set⟩
    · exact .none
  | store value address =>
    simp only [exec, ← heval value (.head _), ← heval address (.tail _ (.head _))]
    split
    · exact .some ⟨rfl, h⟩
    · exact .none
  | pointerCast value =>
    simp only [exec, ← heval value (.head _)]
    split
    · exact .some ⟨rfl, h.set⟩
    · exact .none
  | integerCast value =>
    simp only [exec, ← heval value (.head _)]
    split
    · exact .some ⟨rfl, h.set⟩
    · exact .none
  | call callee args =>
    have hargs : args.mapM (Operand.eval env) = args.mapM (Operand.eval env') := mapM_eval_congr hinst.operands h
    simp only [exec, ← hargs, Option.bind_eq_bind]
    refine rel_bind (rel_refl _) fun arguments _ heq => heq ▸ rel_bind (rel_refl _) fun result _ heq => heq ▸ ?_
    exact .some (Matches.finish h id result)
  | other operation operands =>
    have hargs : operands.mapM (Operand.eval env) = operands.mapM (Operand.eval env') := mapM_eval_congr hinst.operands h
    simp only [exec, ← hargs, Option.bind_eq_bind]
    refine rel_bind (rel_refl _) fun arguments _ heq => heq ▸ rel_bind (rel_refl _) fun result _ heq => heq ▸ ?_
    exact .some (Matches.finish h id result)

end Agree

/-! ### Rules -/

section Rules
variable {κ τ σ : Type} {semantics : Semantics κ τ σ}

theorem execAll_cons (s : Env × State σ) (inst : Inst κ τ) (code : List (Inst κ τ)) :
    execAll semantics s (inst :: code) = (inst.exec semantics s).bind fun s => execAll semantics s code := rfl

theorem execAll_append (s : Env × State σ) (code code' : List (Inst κ τ)) :
    execAll semantics s (code ++ code') = (execAll semantics s code).bind fun s => execAll semantics s code' :=
  List.foldlM_append

end Rules

/-! ### Cursors -/

/-- An iterator into a list. It is at the first element of `after`, or at the end. -/
structure Cursor (α : Type) where
  before : List α
  after : List α

namespace Cursor
variable {α : Type}

/-- A new element comes right before the iterator. -/
def insert (a : α) (c : Cursor α) : Cursor α := { c with before := c.before ++ [a] }

/-- The element at the iterator is replaced, and the iterator is at the new one. -/
def replace (a : α) (c : Cursor α) : Cursor α := { c with after := a :: c.after.tail }

def next (c : Cursor α) : Cursor α := ⟨c.before ++ c.after.take 1, c.after.tail⟩

def toList (c : Cursor α) : List α := c.before ++ c.after

end Cursor

end Ir
