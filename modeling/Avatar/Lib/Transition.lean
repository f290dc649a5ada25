import Mathlib.Data.List.Basic

/-! Runs of a labelled transition relation, and the rule that carries an invariant along them. -/

namespace Transition
variable {S A : Type}

/-- `Run step s as t`: the actions `as`, in this order, lead from `s` to `t`. -/
inductive Run (step : S → A → S → Prop) (s : S) : List A → S → Prop where
  | nil : Run step s [] s
  | snoc {as : List A} {t : S} {a : A} {u : S} : Run step s as t → step t a u → Run step s (as ++ [a]) u

def Reachable (step : S → A → S → Prop) (s t : S) : Prop := ∃ as, Run step s as t

variable {step : S → A → S → Prop} {s t u : S} {a : A} {as bs : List A}

theorem Run.append (h : Run step s as t) (h' : Run step t bs u) : Run step s (as ++ bs) u := by
  induction h' with
  | nil => rwa [List.append_nil]
  | snoc _ hstep ih =>
    rw [← List.append_assoc]
    exact ih.snoc hstep

theorem Run.cons (hstep : step s a t) (h : Run step t as u) : Run step s (a :: as) u :=
  (Run.nil.snoc hstep).append h

/-- Two relations that agree where an invariant of one of them holds have the same runs. -/
theorem Run.iff_of_invariant {step' : S → A → S → Prop} {P : S → Prop} (h0 : P s)
    (hinv : ∀ s a t, P s → step s a t → P t) (hiff : ∀ s a t, P s → (step' s a t ↔ step s a t)) :
    Run step' s as t ↔ Run step s as t := by
  have hkeep : ∀ {as t}, Run step s as t → P t := by
    intro as t h
    induction h with
    | nil => exact h0
    | snoc _ hs ih => exact hinv _ _ _ ih hs
  constructor
  · intro h
    induction h with
    | nil => exact .nil
    | snoc _ hs ih => exact ih.snoc ((hiff _ _ _ (hkeep ih)).mp hs)
  · intro h
    induction h with
    | nil => exact .nil
    | snoc hrun hs ih => exact ih.snoc ((hiff _ _ _ (hkeep hrun)).mpr hs)

/-- States have a property as long as each step has the one that keeps it. -/
theorem forall_le_iff {P Q : Nat → Prop} (h0 : P 0) (hstep : ∀ k, P k → (P (k + 1) ↔ Q k)) (n : Nat) :
    (∀ k ≤ n, P k) ↔ ∀ k < n, Q k := by
  induction n with
  | zero => exact iff_of_true (fun k hk => Nat.le_zero.mp hk ▸ h0) fun k hk => absurd hk (Nat.not_lt_zero k)
  | succ n ih =>
    constructor
    · intro h k hk
      exact (hstep k (h k (Nat.le_of_lt hk))).mp (h (k + 1) hk)
    · intro h k hk
      have hbefore := ih.mpr fun k hk => h k (Nat.lt_succ_of_lt hk)
      rcases Nat.le_succ_iff.mp hk with hk | rfl
      · exact hbefore k hk
      · exact (hstep n (hbefore n (Nat.le_refl n))).mpr (h n (Nat.lt_succ_self n))

namespace Reachable

theorem refl : Reachable step s s := ⟨[], .nil⟩

theorem tail (h : Reachable step s t) (hstep : step t a u) : Reachable step s u :=
  let ⟨as, hrun⟩ := h
  ⟨as ++ [a], hrun.snoc hstep⟩

theorem mono {step' : S → A → S → Prop} (hsub : ∀ s a t, step s a t → step' s a t) (h : Reachable step s t) :
    Reachable step' s t := by
  obtain ⟨as, hrun⟩ := h
  induction hrun with
  | nil => exact refl
  | snoc _ hs ih => exact ih.tail (hsub _ _ _ hs)

/-- What holds at the start and is kept by every step holds in every reachable state. -/
theorem invariant {P : S → Prop} (h : Reachable step s t) (h0 : P s) (hstep : ∀ s a t, P s → step s a t → P t) :
    P t := by
  obtain ⟨as, hrun⟩ := h
  induction hrun with
  | nil => exact h0
  | snoc _ hs ih => exact hstep _ _ _ ih hs

end Reachable

end Transition
