import Avatar.Lib.SsaCalls
import Avatar.Lib.SsaMemory

/-! Handlers that access a remote memory. Code with calls of them does, on the remote memory, what the code without the
    calls does on the memory of its machine. -/

namespace Ssa
open Bytes

variable {ι κ σ : Type}

/-- The handlers read and write the remote memory of their state, and keep the members of structures. What a read puts
    above the bytes of a halfword is left open. -/
structure Handlers.Forward (handlers : Handlers κ σ) (remote : σ → WordMemory 32) : Prop where
  read16 : ∀ a m s, (handlers.read a 2 m s).1.setWidth 16 = BitVec.ofNat 16 (ofLE ((remote s).load a 2))
  read32 : ∀ a m s, (handlers.read a 4 m s).1 = BitVec.ofNat 32 (ofLE ((remote s).load a 4))
  read_remote : ∀ a n m s, remote (handlers.read a n m s).2.2 = remote s
  read_members : ∀ a n m s, (handlers.read a n m s).2.1.members = m.members
  write16 : ∀ a v m s, remote (handlers.write a 2 v m s).2 = (remote s).store a (toLE 2 v.toNat)
  write32 : ∀ a v m s, remote (handlers.write a 4 v m s).2 = (remote s).store a (toLE 4 v.toNat)
  write_members : ∀ a n v m s, (handlers.write a n v m s).1.members = m.members

/-- The machine with the remote memory in the place of its own -/
def CallMachine.view (remote : σ → WordMemory 32) (m : CallMachine κ σ) : Machine κ := ⟨remote m.state, m.machine.members⟩

def CallState.view (remote : σ → WordMemory 32) : CallState ι κ σ → State ι κ
  | running b phi m => .running b phi (m.view remote)
  | returned m => .returned (m.view remote)
  | undefined => .undefined

variable [DecidableEq κ] {handlers : Handlers κ σ} {remote : σ → WordMemory 32} {phi : ι → Option (Val κ)}
  {a v : Value ι κ}

/-- With these phi nodes, an instruction does on the remote memory what another one does on the memory of its machine. -/
def Replaces (handlers : Handlers κ σ) (remote : σ → WordMemory 32) (phi : ι → Option (Val κ)) (instr : Instr ι κ)
    (instr' : CallInstr ι κ) : Prop :=
  ∀ (env env' : Env ι κ) (m : CallMachine κ σ) (machine : Machine κ), env.phi = phi →
    instr.exec (env, m.view remote) = some (env', machine) →
      ∃ m', instr'.exec handlers (env, m) = some (env', m') ∧ m'.view remote = machine

theorem exec_read {env : Env ι κ} {x : BitVec 32} (hx : a.eval env = some (.i32 x)) (ty : Ty) (n : BitVec 32)
    (m : CallMachine κ σ) : CallInstr.exec handlers (env, m) (.read ty a n) =
      some ({ env with results := env.results ++ [some (ty.cast (handlers.read x n m.machine m.state).1)] },
        ⟨(handlers.read x n m.machine m.state).2.1, (handlers.read x n m.machine m.state).2.2,
          m.calls ++ [.read x n]⟩) := by
  simp only [CallInstr.exec, hx]

theorem exec_write {env : Env ι κ} {x w : BitVec 32} (hx : a.eval env = some (.i32 x))
    (hw : (v.eval env).bind Val.word = some w) (n : BitVec 32) (m : CallMachine κ σ) :
    CallInstr.exec handlers (env, m) (.write a n v) = some ({ env with results := env.results ++ [none] },
      ⟨(handlers.write x n w m.machine m.state).1, (handlers.write x n w m.machine m.state).2,
        m.calls ++ [.write x n w]⟩) := by
  simp only [CallInstr.exec, hx, hw]

omit [DecidableEq κ] in
theorem view_read (h : handlers.Forward remote) (x n : BitVec 32) (m : CallMachine κ σ) (calls : List Access) :
    CallMachine.view remote ⟨(handlers.read x n m.machine m.state).2.1, (handlers.read x n m.machine m.state).2.2, calls⟩ =
      m.view remote := by
  rw [CallMachine.view, CallMachine.view, h.read_remote, h.read_members]

theorem replaces_read16 (h : handlers.Forward remote) (metadata : Option String)
    (ha : ∀ results, ∃ x, a.eval ⟨phi, results⟩ = some (.i32 x)) :
    Replaces handlers remote phi (.load .i16 a metadata) (.read .i16 a 2) := by
  rintro env env' m machine rfl hexec
  obtain ⟨x, hx⟩ := ha env.results
  simp only [Instr.exec, hx, Option.some.injEq, Prod.mk.injEq] at hexec
  obtain ⟨rfl, rfl⟩ := hexec
  refine ⟨_, (exec_read hx .i16 2 m).trans ?_, view_read h x 2 m (m.calls ++ [.read x 2])⟩
  rw [Ty.cast, h.read16, Machine.load16_eq]
  rfl

theorem replaces_read32 (h : handlers.Forward remote) (metadata : Option String)
    (ha : ∀ results, ∃ x, a.eval ⟨phi, results⟩ = some (.i32 x)) :
    Replaces handlers remote phi (.load .i32 a metadata) (.read .i32 a 4) := by
  rintro env env' m machine rfl hexec
  obtain ⟨x, hx⟩ := ha env.results
  simp only [Instr.exec, hx, Option.some.injEq, Prod.mk.injEq] at hexec
  obtain ⟨rfl, rfl⟩ := hexec
  refine ⟨_, (exec_read hx .i32 4 m).trans ?_, view_read h x 4 m (m.calls ++ [.read x 4])⟩
  rw [Ty.cast, h.read32, Machine.load32_eq]
  rfl

theorem replaces_write16 (h : handlers.Forward remote) (metadata : Option String)
    (ha : ∀ results, ∃ x, a.eval ⟨phi, results⟩ = some (.i32 x))
    (hv : ∀ results, ∃ w, v.eval ⟨phi, results⟩ = some (.i16 w)) :
    Replaces handlers remote phi (.store v a metadata) (.write a 2 v) := by
  rintro env env' m machine rfl hexec
  obtain ⟨x, hx⟩ := ha env.results
  obtain ⟨w, hw⟩ := hv env.results
  simp only [Instr.exec, hx, hw, Option.some.injEq, Prod.mk.injEq] at hexec
  obtain ⟨rfl, rfl⟩ := hexec
  have hword : (v.eval env).bind Val.word = some (w.setWidth 32) := congrArg (Option.bind · Val.word) hw
  refine ⟨_, exec_write hx hword 2 m, ?_⟩
  have hmemory := Machine.store16_memory (m := m.view remote) (a := x) w
  rw [CallMachine.view, h.write16, h.write_members, BitVec.toNat_setWidth_of_le (by decide)]
  exact congrArg (Machine.mk · m.machine.members) hmemory.symm

theorem replaces_write32 (h : handlers.Forward remote) (metadata : Option String)
    (ha : ∀ results, ∃ x, a.eval ⟨phi, results⟩ = some (.i32 x))
    (hv : ∀ results, ∃ w, v.eval ⟨phi, results⟩ = some (.i32 w)) :
    Replaces handlers remote phi (.store v a metadata) (.write a 4 v) := by
  rintro env env' m machine rfl hexec
  obtain ⟨x, hx⟩ := ha env.results
  obtain ⟨w, hw⟩ := hv env.results
  simp only [Instr.exec, hx, hw, Option.some.injEq, Prod.mk.injEq] at hexec
  obtain ⟨rfl, rfl⟩ := hexec
  have hword : (v.eval env).bind Val.word = some w := congrArg (Option.bind · Val.word) hw
  refine ⟨_, exec_write hx hword 4 m, ?_⟩
  have hmemory := Machine.store32_memory (m := m.view remote) (a := x) (v := w)
  rw [CallMachine.view, h.write32, h.write_members]
  exact congrArg (Machine.mk · m.machine.members) hmemory.symm

/-! ### Code -/

theorem phi_of_exec {instr : Instr ι κ} {env env' : Env ι κ} {m m' : Machine κ}
    (h : instr.exec (env, m) = some (env', m')) : env'.phi = env.phi := by
  cases instr with
  | load ty ptr metadata =>
    simp only [Instr.exec] at h
    split at h <;> cases h <;> rfl
  | store val ptr metadata =>
    simp only [Instr.exec] at h
    split at h <;> cases h <;> rfl
  | br | condBr | retVoid => cases h

theorem callExecAll_replaced {code : List (Instr ι κ)} {code' : List (CallInstr ι κ)}
    (h : List.Forall₂ (Replaces handlers remote phi) code code') {env env' : Env ι κ} {m : CallMachine κ σ}
    {machine : Machine κ} (hphi : env.phi = phi) (hrun : execAll (env, m.view remote) code = some (env', machine)) :
    ∃ m', callExecAll handlers (env, m) code' = some (env', m') ∧ m'.view remote = machine := by
  induction h generalizing env m with
  | nil =>
    cases hrun
    exact ⟨m, rfl, rfl⟩
  | cons hinstr _ ih =>
    obtain ⟨⟨env₁, machine₁⟩, hexec, hrest⟩ := Option.bind_eq_some_iff.mp hrun
    obtain ⟨m₁, hexec', rfl⟩ := hinstr env env₁ m machine₁ hphi hexec
    obtain ⟨m', hrun', hview⟩ := ih ((phi_of_exec hexec).trans hphi) hrest
    refine ⟨m', ?_, hview⟩
    rw [callExecAll, List.foldlM_cons, hexec']
    exact hrun'

end Ssa
