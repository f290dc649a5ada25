import Avatar.Lib.Bytes

/-! A static single assignment language with phi nodes: the part of a compiler's intermediate language
    that a translator of straight-line machine code emits. `ι` names the phi nodes of a block, and `κ`
    the structures whose members the code can address.

    A pure instruction is the expression that it computes, with its operands. A value belongs to a block:
    its phi nodes and the results of its instructions are named relative to it, and a value that comes in
    through a phi node is named relative to the predecessor. Addresses have 32 bits, and memory is
    little-endian. -/

namespace Ssa
open Bytes

inductive Ty where
  | i1
  | i16
  | i32
deriving DecidableEq, Repr

inductive BinaryOp where
  | add
  | sub
  | and
  | or
  | xor
  | shl
  | lshr
deriving DecidableEq, Repr

inductive Comparison where
  | eq
  | ne
  | ugt
  | uge
  | ult
deriving DecidableEq, Repr

inductive Value (ι κ : Type) where
  | phi (id : ι)
  | int32 (v : BitVec 32)
  | binary (op : BinaryOp) (lhs rhs : Value ι κ)
  | icmp (p : Comparison) (lhs rhs : Value ι κ)
  | not (v : Value ι κ)
  /-- Extension with zeros to 32 bits. -/
  | zext (v : Value ι κ)
  /-- Truncation to 16 bits. -/
  | trunc (v : Value ι κ)
  | intToPtr (v : Value ι κ)
  | ptrToInt (v : Value ι κ)
  /-- The address of the element `index` of the array at `base`, whose elements have `size` bytes. -/
  | gep (size : BitVec 32) (base index : Value ι κ)
  /-- The address of a member of a structure. -/
  | member (struct : κ) (index : Nat)
  /-- The result of the instruction `n` of the block. -/
  | result (n : Nat)
deriving DecidableEq, Repr

inductive Instr (ι κ : Type) where
  | load (ty : Ty) (ptr : Value ι κ) (metadata : Option String)
  | store (val ptr : Value ι κ) (metadata : Option String)
  | br (target : Nat)
  | condBr (cond : Value ι κ) (ifTrue ifFalse : Nat)
  | retVoid
deriving DecidableEq, Repr

structure Block (ι κ : Type) where
  phis : List (ι × List (Value ι κ × Nat))
  code : List (Instr ι κ)
deriving DecidableEq, Repr

/-! ### Building -/

section Build
variable {ι κ : Type} [DecidableEq ι]

/-- Add the values that come in from the block `pred` to the phi nodes of their names. -/
def Block.addIncoming (values : List (ι × Value ι κ)) (pred : Nat) (block : Block ι κ) : Block ι κ :=
  { block with phis := block.phis.map fun (id, incoming) =>
      (id, incoming ++ (values.filter (·.1 = id)).map fun v => (v.2, pred)) }

def Block.append (instrs : List (Instr ι κ)) (block : Block ι κ) : Block ι κ :=
  { block with code := block.code ++ instrs }

def Instr.isTerminator : Instr ι κ → Bool
  | .br _ | .condBr .. | .retVoid => true
  | _ => false

/-- The targets of a terminator, one for each edge. -/
def Instr.targets : Instr ι κ → List Nat
  | .br target => [target]
  | .condBr _ ifTrue ifFalse => [ifTrue, ifFalse]
  | _ => []

/-- The edges that leave a block. -/
def Block.targets (block : Block ι κ) : List Nat := block.code.flatMap Instr.targets

/-- The last instruction is a terminator and no other one is. -/
def Block.Terminated (block : Block ι κ) : Prop :=
  ∃ body terminator, block.code = body ++ [terminator] ∧ terminator.isTerminator = true ∧
    ∀ i ∈ body, i.isTerminator = false

end Build

/-! ### Execution -/

inductive Val (κ : Type) where
  | i1 (v : Bool)
  | i16 (v : BitVec 16)
  | i32 (v : BitVec 32)
  | member (struct : κ) (index : Nat)
deriving DecidableEq, Repr

structure Machine (κ : Type) where
  memory : BitVec 32 → Byte
  members : κ → Nat → BitVec 32

/-- The values of the phi nodes of the current block and of the instructions executed so far. -/
structure Env (ι κ : Type) where
  phi : ι → Option (Val κ)
  results : List (Option (Val κ))

section Execute
variable {ι κ : Type}

/-- A shift by the width of the operand or more has no defined result. -/
def BinaryOp.eval32 (lhs rhs : BitVec 32) : BinaryOp → Option (BitVec 32)
  | add => some (lhs + rhs)
  | sub => some (lhs - rhs)
  | and => some (lhs &&& rhs)
  | or => some (lhs ||| rhs)
  | xor => some (lhs ^^^ rhs)
  | shl => if rhs.toNat < 32 then some (lhs <<< rhs.toNat) else none
  | lshr => if rhs.toNat < 32 then some (lhs >>> rhs.toNat) else none

def BinaryOp.eval1 (lhs rhs : Bool) : BinaryOp → Option Bool
  | and => some (lhs && rhs)
  | or => some (lhs || rhs)
  | xor => some (lhs ^^ rhs)
  | _ => none

def Comparison.eval32 (lhs rhs : BitVec 32) : Comparison → Bool
  | eq => lhs == rhs
  | ne => lhs != rhs
  | ugt => rhs.ult lhs
  | uge => rhs.ule lhs
  | ult => lhs.ult rhs

def Comparison.eval1 (lhs rhs : Bool) : Comparison → Option Bool
  | eq => some (lhs == rhs)
  | ne => some (lhs != rhs)
  | _ => none

/-- The value of an expression, if it is defined and its operands have the right types. -/
def Value.eval (env : Env ι κ) : Value ι κ → Option (Val κ)
  | phi id => env.phi id
  | int32 v => some (.i32 v)
  | binary op lhs rhs =>
    match lhs.eval env, rhs.eval env with
    | some (.i32 x), some (.i32 y) => (op.eval32 x y).map .i32
    | some (.i1 x), some (.i1 y) => (op.eval1 x y).map .i1
    | _, _ => none
  | icmp p lhs rhs =>
    match lhs.eval env, rhs.eval env with
    | some (.i32 x), some (.i32 y) => some (.i1 (p.eval32 x y))
    | some (.i1 x), some (.i1 y) => (p.eval1 x y).map .i1
    | _, _ => none
  | not v =>
    match v.eval env with
    | some (.i32 x) => some (.i32 (~~~x))
    | some (.i1 x) => some (.i1 (!x))
    | _ => none
  | zext v =>
    match v.eval env with
    | some (.i1 x) => some (.i32 (if x then 1 else 0))
    | some (.i16 x) => some (.i32 (x.setWidth 32))
    | _ => none
  | trunc v =>
    match v.eval env with
    | some (.i32 x) => some (.i16 (x.setWidth 16))
    | _ => none
  | intToPtr v | ptrToInt v =>
    match v.eval env with
    | some (.i32 x) => some (.i32 x)
    | _ => none
  | gep size base index =>
    match base.eval env, index.eval env with
    | some (.i32 x), some (.i32 y) => some (.i32 (x + y * size))
    | _, _ => none
  | member struct index => some (.member struct index)
  | result n => env.results[n]?.join

def Machine.load16 (m : Machine κ) (a : BitVec 32) : BitVec 16 := m.memory (a + 1) ++ m.memory a

def Machine.load32 (m : Machine κ) (a : BitVec 32) : BitVec 32 :=
  m.memory (a + 3) ++ m.memory (a + 2) ++ m.memory (a + 1) ++ m.memory a

def Machine.store8 (m : Machine κ) (a : BitVec 32) (v : Byte) : Machine κ :=
  { m with memory := fun x => if x = a then v else m.memory x }

def Machine.store16 (m : Machine κ) (a : BitVec 32) (v : BitVec 16) : Machine κ :=
  (m.store8 a (v.setWidth 8)).store8 (a + 1) ((v >>> 8).setWidth 8)

def Machine.store32 (m : Machine κ) (a : BitVec 32) (v : BitVec 32) : Machine κ :=
  (m.store16 a (v.setWidth 16)).store16 (a + 2) ((v >>> 16).setWidth 16)

variable [DecidableEq κ]

def Machine.setMember (m : Machine κ) (struct : κ) (index : Nat) (v : BitVec 32) : Machine κ :=
  { m with members := fun k i => if k = struct ∧ i = index then v else m.members k i }

def Instr.exec (s : Env ι κ × Machine κ) : Instr ι κ → Option (Env ι κ × Machine κ)
  | .load ty ptr _ =>
    let result v := ({ s.1 with results := s.1.results ++ [some v] }, s.2)
    match ptr.eval s.1, ty with
    | some (.i32 a), .i16 => some (result (.i16 (s.2.load16 a)))
    | some (.i32 a), .i32 => some (result (.i32 (s.2.load32 a)))
    | some (.member struct index), .i32 => some (result (.i32 (s.2.members struct index)))
    | _, _ => none
  | .store val ptr _ =>
    let env := { s.1 with results := s.1.results ++ [none] }
    match val.eval s.1, ptr.eval s.1 with
    | some (.i16 v), some (.i32 a) => some (env, s.2.store16 a v)
    | some (.i32 v), some (.i32 a) => some (env, s.2.store32 a v)
    | some (.i32 v), some (.member struct index) => some (env, s.2.setMember struct index v)
    | _, _ => none
  | _ => none

/-- Execute instructions that are no terminators. -/
def execAll (s : Env ι κ × Machine κ) (code : List (Instr ι κ)) : Option (Env ι κ × Machine κ) :=
  code.foldlM Instr.exec s

inductive Exit where
  | goto (target : Nat)
  | returned
deriving DecidableEq, Repr

def Instr.exit (env : Env ι κ) : Instr ι κ → Option Exit
  | .br target => some (.goto target)
  | .condBr cond ifTrue ifFalse =>
    match cond.eval env with
    | some (.i1 b) => some (.goto (if b then ifTrue else ifFalse))
    | _ => none
  | .retVoid => some .returned
  | _ => none

def Block.run (block : Block ι κ) (s : Env ι κ × Machine κ) : Option (Env ι κ × Machine κ × Exit) :=
  match block.code.getLast?, execAll s block.code.dropLast with
  | some terminator, some (env, m) => (terminator.exit env).map fun exit => (env, m, exit)
  | _, _ => none

/-- The values of the phi nodes when control comes from the block `pred`, which ends with `env`. -/
def Block.enter [DecidableEq ι] (block : Block ι κ) (pred : Nat) (env : Env ι κ) (id : ι) : Option (Val κ) :=
  ((block.phis.lookup id).bind fun incoming => incoming.find? (·.2 = pred)).bind fun v => v.1.eval env

/-- The state of an execution: at the start of a block, or at the end. -/
inductive State (ι κ : Type) where
  | running (block : Nat) (phi : ι → Option (Val κ)) (m : Machine κ)
  | returned (m : Machine κ)
  | undefined

def step [DecidableEq ι] (blocks : List (Block ι κ)) : State ι κ → State ι κ
  | .running b phi m =>
    match (blocks[b]?).bind (·.run (⟨phi, []⟩, m)) with
    | some (env, m, .goto target) =>
      match blocks[target]? with
      | some block => .running target (block.enter b env) m
      | none => .undefined
    | some (_, m, .returned) => .returned m
    | none => .undefined
  | s => s

end Execute

/-! ### Execution of what has been built -/

section Lemmas
variable {ι κ : Type}

theorem lookup_map {α β : Type} [DecidableEq ι] (f : ι → α → β) (l : List (ι × α)) (id : ι) :
    (l.map fun x => (x.1, f x.1 x.2)).lookup id = (l.lookup id).map (f id) := by
  induction l with
  | nil => rfl
  | cons x l ih =>
    rw [List.map_cons, List.lookup_cons, List.lookup_cons]
    by_cases h : id == x.1
    · rw [h, ← beq_iff_eq.mp h]
      rfl
    · rw [Bool.not_eq_true] at h
      rw [h]
      exact ih

variable [DecidableEq κ]

theorem execAll_concat (s : Env ι κ × Machine κ) (code : List (Instr ι κ)) (instr : Instr ι κ) :
    execAll s (code ++ [instr]) = (execAll s code).bind fun s => instr.exec s := by
  simp only [execAll, List.foldlM_append, List.foldlM_cons, List.foldlM_nil, bind_pure]
  rfl

theorem execAll_cons (s : Env ι κ × Machine κ) (instr : Instr ι κ) (code : List (Instr ι κ)) :
    execAll s (instr :: code) = (instr.exec s).bind fun s => execAll s code := rfl

theorem execAll_loadMembers (env : Env ι κ) (m : Machine κ) (members : List (κ × Nat)) :
    execAll (env, m) (members.map fun p => .load .i32 (.member p.1 p.2) none) =
      some ({ env with results := env.results ++ members.map fun p => some (.i32 (m.members p.1 p.2)) }, m) := by
  induction members generalizing env with
  | nil => rw [List.map_nil, List.map_nil, List.append_nil]; rfl
  | cons p members ih =>
    rw [List.map_cons, execAll_cons]
    refine (ih _).trans ?_
    rw [List.append_assoc, List.map_cons, List.singleton_append]

/-- Code that stores to members of a structure. The values do not depend on the results before. -/
theorem execAll_storeMembers (env : Env ι κ) (m : Machine κ) (struct : κ) (x : Nat → BitVec 32)
    (stores : List (Value ι κ × Nat))
    (h : ∀ p ∈ stores, ∀ results, p.1.eval ⟨env.phi, results⟩ = some (.i32 (x p.2))) :
    ∃ env' m', execAll (env, m) (stores.map fun p => .store p.1 (.member struct p.2) none) = some (env', m') ∧
      m'.memory = m.memory ∧ ∀ k i, m'.members k i =
        if k = struct ∧ i ∈ stores.map (·.2) then x i else m.members k i := by
  induction stores generalizing env m with
  | nil => exact ⟨env, m, rfl, rfl, fun k i => (if_neg fun h => List.not_mem_nil h.2).symm⟩
  | cons p stores ih =>
    have hp : p.1.eval env = some (.i32 (x p.2)) := h p (List.mem_cons_self ..) env.results
    have hexec : Instr.exec (env, m) (.store p.1 (.member struct p.2) none) =
        some ({ env with results := env.results ++ [none] }, m.setMember struct p.2 (x p.2)) := by
      simp only [Instr.exec, Value.eval, hp]
    obtain ⟨env', m', hrun, hmemory, hmembers⟩ := ih { env with results := env.results ++ [none] }
      (m.setMember struct p.2 (x p.2)) fun p hp => h p (List.mem_cons_of_mem _ hp)
    refine ⟨env', m', by rw [List.map_cons, execAll_cons, hexec, Option.bind_some, hrun], hmemory, fun k i => ?_⟩
    have hset : (m.setMember struct p.2 (x p.2)).members k i =
        if k = struct ∧ i = p.2 then x p.2 else m.members k i := rfl
    rw [hmembers, List.map_cons, hset]
    by_cases hi : k = struct ∧ i ∈ stores.map (·.2)
    · rw [if_pos hi, if_pos ⟨hi.1, List.mem_cons_of_mem _ hi.2⟩]
    · rw [if_neg hi]
      by_cases heq : k = struct ∧ i = p.2
      · rw [if_pos heq, if_pos ⟨heq.1, heq.2 ▸ List.mem_cons_self ..⟩, heq.2]
      · rw [if_neg heq, if_neg fun h => (List.mem_cons.mp h.2).elim (fun hi => heq ⟨h.1, hi⟩) fun h' => hi ⟨h.1, h'⟩]

theorem Block.run_append (block : Block ι κ) {body : List (Instr ι κ)} {terminator : Instr ι κ}
    (h : block.code = body ++ [terminator]) (s : Env ι κ × Machine κ) : block.run s =
      (execAll s body).bind fun t => (terminator.exit t.1).map fun exit => (t.1, t.2, exit) := by
  simp only [Block.run, h, List.getLast?_concat, List.dropLast_concat]
  cases execAll s body <;> rfl

section Step
variable [DecidableEq ι] {blocks : List (Block ι κ)} {block : Block ι κ} {b : Nat} {phi : ι → Option (Val κ)}
  {m m' : Machine κ} {body : List (Instr ι κ)} {terminator : Instr ι κ} {env : Env ι κ}

theorem step_goto {target : Nat} {block' : Block ι κ} (hb : blocks[b]? = some block)
    (hcode : block.code = body ++ [terminator]) (hrun : execAll (⟨phi, []⟩, m) body = some (env, m'))
    (hexit : terminator.exit env = some (.goto target)) (htarget : blocks[target]? = some block') :
    step blocks (.running b phi m) = .running target (block'.enter b env) m' := by
  simp only [step, hb, Option.bind_some, block.run_append hcode, hrun, hexit, Option.map_some, htarget]

theorem step_returned (hb : blocks[b]? = some block) (hcode : block.code = body ++ [.retVoid])
    (hrun : execAll (⟨phi, []⟩, m) body = some (env, m')) : step blocks (.running b phi m) = .returned m' := by
  simp only [step, hb, Option.bind_some, block.run_append hcode, hrun, Instr.exit, Option.map_some]

end Step

end Lemmas

end Ssa
