import Avatar.Lib.SsaTyping

/-! Code whose memory accesses have been replaced with calls of handlers, one for reads and one for writes. A
    handler may do anything to the machine and to a state of its own. The calls are recorded. -/

namespace Ssa

/-- An access to memory, by its address, its size in bytes and the value that it writes. -/
inductive Access where
  | read (address size : BitVec 32)
  | write (address size value : BitVec 32)
deriving DecidableEq, Repr

inductive CallInstr (ι κ : Type) where
  | plain (instr : Instr ι κ)
  /-- A call of the read handler, whose result is cast to a type. -/
  | read (ty : Ty) (address : Value ι κ) (size : BitVec 32)
  /-- A call of the write handler with the value extended with zeros. -/
  | write (address : Value ι κ) (size : BitVec 32) (value : Value ι κ)
deriving DecidableEq, Repr

structure CallBlock (ι κ : Type) where
  phis : List (ι × List (Value ι κ × Nat))
  code : List (CallInstr ι κ)
deriving DecidableEq, Repr

structure Handlers (κ σ : Type) where
  read (address size : BitVec 32) (machine : Machine κ) (state : σ) : BitVec 32 × Machine κ × σ
  write (address size value : BitVec 32) (machine : Machine κ) (state : σ) : Machine κ × σ

/-- The machine, the state of the handlers and the calls so far. -/
structure CallMachine (κ σ : Type) where
  machine : Machine κ
  state : σ
  calls : List Access

/-! ### Execution -/

section Execute
variable {ι κ σ : Type}

/-- The integer cast of the result of the read handler. -/
def Ty.cast (v : BitVec 32) : Ty → Val κ
  | i1 => .i1 (v.getLsbD 0)
  | i16 => .i16 (v.setWidth 16)
  | i32 => .i32 v

/-- The integer cast of the argument of the write handler. -/
def Val.word : Val κ → Option (BitVec 32)
  | i1 v => some (if v then 1 else 0)
  | i16 v => some (v.setWidth 32)
  | i32 v => some v
  | member .. => none

/-- The call that an instruction makes. -/
def CallInstr.calls (env : Env ι κ) : CallInstr ι κ → List Access
  | .plain _ => []
  | .read _ address size =>
    match address.eval env with
    | some (.i32 a) => [.read a size]
    | _ => []
  | .write address size value =>
    match address.eval env, (value.eval env).bind Val.word with
    | some (.i32 a), some v => [.write a size v]
    | _, _ => []

def CallInstr.exit (env : Env ι κ) : CallInstr ι κ → Option Exit
  | .plain instr => instr.exit env
  | _ => none

variable [DecidableEq κ] (handlers : Handlers κ σ)

def CallInstr.exec (s : Env ι κ × CallMachine κ σ) : CallInstr ι κ → Option (Env ι κ × CallMachine κ σ)
  | .plain instr => (instr.exec (s.1, s.2.machine)).map fun t => (t.1, { s.2 with machine := t.2 })
  | .read ty address size =>
    match address.eval s.1 with
    | some (.i32 a) =>
      let (v, machine, state) := handlers.read a size s.2.machine s.2.state
      some ({ s.1 with results := s.1.results ++ [some (ty.cast v)] }, ⟨machine, state, s.2.calls ++ [.read a size]⟩)
    | _ => none
  | .write address size value =>
    match address.eval s.1, (value.eval s.1).bind Val.word with
    | some (.i32 a), some v =>
      let (machine, state) := handlers.write a size v s.2.machine s.2.state
      some ({ s.1 with results := s.1.results ++ [none] }, ⟨machine, state, s.2.calls ++ [.write a size v]⟩)
    | _, _ => none

/-- Execute instructions that are no terminators. -/
def callExecAll (s : Env ι κ × CallMachine κ σ) (code : List (CallInstr ι κ)) : Option (Env ι κ × CallMachine κ σ) :=
  code.foldlM (CallInstr.exec handlers) s

def CallBlock.run (block : CallBlock ι κ) (s : Env ι κ × CallMachine κ σ) :
    Option (Env ι κ × CallMachine κ σ × Exit) :=
  match block.code.getLast?, callExecAll handlers s block.code.dropLast with
  | some terminator, some (env, m) => (terminator.exit env).map fun exit => (env, m, exit)
  | _, _ => none

/-- The values of the phi nodes, which are those of the block without calls. -/
def CallBlock.enter [DecidableEq ι] (block : CallBlock ι κ) (pred : Nat) (env : Env ι κ) (id : ι) : Option (Val κ) :=
  (⟨block.phis, []⟩ : Block ι κ).enter pred env id

inductive CallState (ι κ σ : Type) where
  | running (block : Nat) (phi : ι → Option (Val κ)) (m : CallMachine κ σ)
  | returned (m : CallMachine κ σ)
  | undefined

def CallState.calls : CallState ι κ σ → List Access
  | running _ _ m | returned m => m.calls
  | undefined => []

/-- A state without calls, with the handlers' state and the calls of `m`. -/
def State.withCalls (m : CallMachine κ σ) : State ι κ → CallState ι κ σ
  | running b phi machine => .running b phi { m with machine := machine }
  | returned machine => .returned { m with machine := machine }
  | undefined => .undefined

def callStep [DecidableEq ι] (blocks : List (CallBlock ι κ)) : CallState ι κ σ → CallState ι κ σ
  | .running b phi m =>
    match (blocks[b]?).bind (·.run handlers (⟨phi, []⟩, m)) with
    | some (env, m, .goto target) =>
      match blocks[target]? with
      | some block => .running target (block.enter b env) m
      | none => .undefined
    | some (_, m, .returned) => .returned m
    | none => .undefined
  | s => s

end Execute

/-! ### Rules -/

section Rules
variable {ι κ σ : Type} [DecidableEq κ] {handlers : Handlers κ σ}

theorem callExecAll_cons (s : Env ι κ × CallMachine κ σ) (instr : CallInstr ι κ) (code : List (CallInstr ι κ)) :
    callExecAll handlers s (instr :: code) = (instr.exec handlers s).bind fun s => callExecAll handlers s code := rfl

theorem callExecAll_concat (s : Env ι κ × CallMachine κ σ) (code : List (CallInstr ι κ)) (instr : CallInstr ι κ) :
    callExecAll handlers s (code ++ [instr]) = (callExecAll handlers s code).bind fun s => instr.exec handlers s := by
  simp only [callExecAll, List.foldlM_append, List.foldlM_cons, List.foldlM_nil, bind_pure]
  rfl

/-- Code without calls does to the machine what it does without handlers. -/
theorem callExecAll_plain (env : Env ι κ) (m : CallMachine κ σ) (code : List (Instr ι κ)) :
    callExecAll handlers (env, m) (code.map .plain) =
      (execAll (env, m.machine) code).map fun t => (t.1, { m with machine := t.2 }) := by
  induction code generalizing env m with
  | nil => rfl
  | cons instr code ih =>
    rw [List.map_cons, execAll_cons, callExecAll_cons, CallInstr.exec]
    cases hexec : instr.exec (env, m.machine) with
    | none => rfl
    | some t => exact ih t.1 { m with machine := t.2 }

theorem CallBlock.run_append (block : CallBlock ι κ) {body : List (CallInstr ι κ)} {terminator : CallInstr ι κ}
    (h : block.code = body ++ [terminator]) (s : Env ι κ × CallMachine κ σ) : block.run handlers s =
      (callExecAll handlers s body).bind fun t => (terminator.exit t.1).map fun exit => (t.1, t.2, exit) := by
  simp only [CallBlock.run, h, List.getLast?_concat, List.dropLast_concat]
  cases callExecAll handlers s body <;> rfl

section Step
variable [DecidableEq ι] {blocks : List (CallBlock ι κ)} {block : CallBlock ι κ} {b : Nat} {phi : ι → Option (Val κ)}
  {m m' : CallMachine κ σ} {body : List (CallInstr ι κ)} {terminator : CallInstr ι κ} {env : Env ι κ}

theorem callStep_goto {target : Nat} {block' : CallBlock ι κ} (hb : blocks[b]? = some block)
    (hcode : block.code = body ++ [terminator]) (hrun : callExecAll handlers (⟨phi, []⟩, m) body = some (env, m'))
    (hexit : terminator.exit env = some (.goto target)) (htarget : blocks[target]? = some block') :
    callStep handlers blocks (.running b phi m) = .running target (block'.enter b env) m' := by
  simp only [callStep, hb, Option.bind_some, block.run_append hcode, hrun, hexit, Option.map_some, htarget]

/-- A block without calls does what it does without handlers. -/
theorem callStep_plain {plainBlocks : List (Block ι κ)} {plainBlock : Block ι κ}
    (hb : plainBlocks[b]? = some plainBlock) (hb' : blocks[b]? = some ⟨plainBlock.phis, plainBlock.code.map .plain⟩)
    (hphis : ∀ i : Nat, (blocks[i]?).map CallBlock.phis = (plainBlocks[i]?).map Block.phis) :
    callStep handlers blocks (.running b phi m) = (step plainBlocks (.running b phi m.machine)).withCalls m := by
  have hrun : CallBlock.run handlers ⟨plainBlock.phis, plainBlock.code.map .plain⟩ (⟨phi, []⟩, m) =
      (plainBlock.run (⟨phi, []⟩, m.machine)).map fun r => (r.1, { m with machine := r.2.1 }, r.2.2) := by
    simp only [CallBlock.run, Block.run, List.getLast?_map, ← List.map_dropLast, callExecAll_plain]
    cases plainBlock.code.getLast? with
    | none => rfl
    | some terminator =>
      cases execAll (⟨phi, []⟩, m.machine) plainBlock.code.dropLast with
      | none => rfl
      | some t =>
        simp only [Option.map_some, CallInstr.exit, Option.map_map]
        rfl
  simp only [callStep, step, hb, hb', Option.bind_some, hrun]
  cases plainBlock.run (⟨phi, []⟩, m.machine) with
  | none => rfl
  | some r =>
    obtain ⟨env, machine, exit⟩ := r
    cases exit with
    | returned => rfl
    | goto target =>
      have htarget := hphis target
      simp only [Option.map_some]
      cases ht : plainBlocks[target]? with
      | none =>
        rw [ht, Option.map_none, Option.map_eq_none_iff] at htarget
        rw [htarget]
        rfl
      | some block' =>
        rw [ht, Option.map_some, Option.map_eq_some_iff] at htarget
        obtain ⟨callBlock, hcall, hphis'⟩ := htarget
        rw [hcall]
        simp only [State.withCalls]
        congr 1
        funext id
        rw [CallBlock.enter, hphis']
        rfl

end Step

end Rules

/-! ### Types -/

section Types
variable {ι κ σ : Type}

inductive CallInstr.HasType (phi : ι → Option Ty) (results : List (Option Ty)) : CallInstr ι κ → Option Ty → Prop where
  | plain {instr : Instr ι κ} {ty : Option Ty} (h : instr.HasType phi results ty) :
      HasType phi results (.plain instr) ty
  | read {ty : Ty} {address : Value ι κ} {size : BitVec 32} (h : address.HasType phi results .i32) :
      HasType phi results (.read ty address size) (some ty)
  | write {ty : Ty} {address value : Value ι κ} {size : BitVec 32} (ha : address.HasType phi results .i32)
      (hv : value.HasType phi results ty) : HasType phi results (.write address size value) none

inductive CallCodeHasType (phi : ι → Option Ty) : List (CallInstr ι κ) → List (Option Ty) → Prop where
  | nil : CallCodeHasType phi [] []
  | snoc {code : List (CallInstr ι κ)} {results : List (Option Ty)} {instr : CallInstr ι κ} {ty : Option Ty}
      (hcode : CallCodeHasType phi code results) (hinstr : instr.HasType phi results ty) :
      CallCodeHasType phi (code ++ [instr]) (results ++ [ty])

theorem Ty.hasType_cast (ty : Ty) (v : BitVec 32) : (ty.cast v : Val κ).HasType ty := by
  cases ty <;> constructor

theorem Val.HasType.exists_word {x : Val κ} {ty : Ty} (h : x.HasType ty) : ∃ v, x.word = some v := by
  cases h <;> exact ⟨_, rfl⟩

variable [DecidableEq κ] {handlers : Handlers κ σ} {phi : ι → Option Ty} {results : List (Option Ty)}

/-- A typed instruction runs, and the call that it makes is recorded. -/
theorem CallInstr.HasType.exec {instr : CallInstr ι κ} {ty : Option Ty} (h : instr.HasType phi results ty)
    {env : Env ι κ} (henv : env.HasType phi results) (m : CallMachine κ σ) :
    ∃ x m', CallInstr.exec handlers (env, m) instr = some ({ env with results := env.results ++ [x] }, m') ∧
      m'.calls = m.calls ++ instr.calls env ∧
      Env.HasType { env with results := env.results ++ [x] } phi (results ++ [ty]) := by
  cases h with
  | plain h =>
    obtain ⟨x, m', hexec, -, henv'⟩ := h.exec henv (m := m.machine)
    refine ⟨x, { m with machine := m' }, ?_, (List.append_nil _).symm, henv'⟩
    simp only [CallInstr.exec, hexec, Option.map_some]
  | @read ty address size h =>
    obtain ⟨_, ha, hta⟩ := h.eval henv
    obtain ⟨a, rfl⟩ := hta.i32_inv
    simp only [CallInstr.exec, CallInstr.calls, ha]
    refine ⟨_, _, rfl, rfl, henv.snoc fun t ht => ?_⟩
    cases ht
    exact ⟨_, rfl, ty.hasType_cast _⟩
  | write h hv =>
    obtain ⟨_, ha, hta⟩ := h.eval henv
    obtain ⟨a, rfl⟩ := hta.i32_inv
    obtain ⟨x, hx, htx⟩ := hv.eval henv
    obtain ⟨v, hv⟩ := htx.exists_word
    simp only [CallInstr.exec, CallInstr.calls, ha, hx, Option.bind_some, hv]
    exact ⟨_, _, rfl, rfl, henv.snoc fun t ht => by cases ht⟩

/-- Typed code runs to its end, and its calls are those of its instructions, in their order. The calls do not
    depend on the results before. -/
theorem CallCodeHasType.execAll {code : List (CallInstr ι κ)} (h : CallCodeHasType phi code results)
    {values : ι → Option (Val κ)} (hvalues : ∀ id ty, phi id = some ty → ∃ x, values id = some x ∧ x.HasType ty)
    (hcalls : ∀ instr ∈ code, ∀ results, instr.calls ⟨values, results⟩ = instr.calls ⟨values, []⟩)
    (m : CallMachine κ σ) :
    ∃ env m', callExecAll handlers (⟨values, []⟩, m) code = some (env, m') ∧
      m'.calls = m.calls ++ code.flatMap (·.calls ⟨values, []⟩) ∧ env.phi = values ∧ env.HasType phi results := by
  induction h with
  | nil => exact ⟨_, m, rfl, (List.append_nil _).symm, rfl, hvalues, rfl, fun n ty h => by cases h⟩
  | @snoc code results instr ty _ hinstr ih =>
    obtain ⟨env, m', hrun, hcalls', hphi, henv⟩ := ih fun i hi => hcalls i (List.mem_append_left _ hi)
    obtain ⟨x, m'', hexec, hcall, henv'⟩ := hinstr.exec henv m'
    refine ⟨{ env with results := env.results ++ [x] }, m'', ?_, ?_, hphi, henv'⟩
    · rw [callExecAll_concat, hrun, Option.bind_some, hexec]
    · have hsame : instr.calls env = instr.calls ⟨values, []⟩ := by
        rw [← hcalls instr (List.mem_append_right _ (.head _)) env.results, ← hphi]
      rw [hcall, hcalls', hsame, List.flatMap_append, List.flatMap_singleton, List.append_assoc]

end Types

end Ssa
