import Mathlib.Order.Basic

/-! Two runs of one computation with state and exceptions, from related states. A computation that respects
    the relation has the same result in both runs, and leaves related states. -/

namespace TwoRuns
variable {ε σ α β : Type} {R : σ → σ → Prop}

/-- The same value or exception, and related states. -/
inductive Same (R : σ → σ → Prop) : EStateM.Result ε σ α → EStateM.Result ε σ α → Prop where
  | ok {a : α} {s s' : σ} (h : R s s') : Same R (.ok a s) (.ok a s')
  | error {e : ε} {s s' : σ} (h : R s s') : Same R (.error e s) (.error e s')

def Respects (R : σ → σ → Prop) (m : EStateM ε σ α) : Prop := ∀ s s', R s s' → Same R (m s) (m s')

/-- Only the values that the second run can have matter. -/
theorem Same.bind {m : EStateM ε σ α} {f : α → EStateM ε σ β} {s s' : σ} (hm : Same R (m s) (m s'))
    (hf : ∀ a t, m s' = .ok a t → Respects R (f a)) : Same R ((m >>= f) s) ((m >>= f) s') := by
  show Same R (EStateM.bind m f s) (EStateM.bind m f s')
  unfold EStateM.bind
  generalize m s = r, m s' = r' at hm hf
  cases hm with
  | ok h => exact hf _ _ rfl _ _ h
  | error h => exact .error h

namespace Respects
variable {m : EStateM ε σ α}

theorem pure (a : α) : Respects R (Pure.pure a : EStateM ε σ α) := fun _ _ h => .ok h

theorem throw (e : ε) : Respects R (MonadExcept.throw e : EStateM ε σ α) := fun _ _ h => .error h

theorem bind {f : α → EStateM ε σ β} (hm : Respects R m) (hf : ∀ a, Respects R (f a)) : Respects R (m >>= f) :=
  fun s s' h => (hm s s' h).bind fun a _ _ => hf a

theorem discard (hm : Respects R m) : Respects R (Functor.discard m : EStateM ε σ PUnit) := by
  intro s s' h
  have hsame := hm s s' h
  show Same R (EStateM.map _ m s) (EStateM.map _ m s')
  unfold EStateM.map
  generalize m s = r, m s' = r' at hsame
  cases hsame with
  | ok h' => exact .ok h'
  | error h' => exact .error h'

theorem update {f : σ → σ} (hf : ∀ s s', R s s' → R (f s) (f s')) : Respects R (modify f : EStateM ε σ PUnit) :=
  fun s s' h => .ok (hf s s' h)

end Respects

/-! ### Optional results -/

section Optional
variable {α' γ γ' : Type} {S : α → α' → Prop} {x : Option α} {y : Option α'}

theorem rel_map {T : γ → γ' → Prop} {f : α → γ} {g : α' → γ'} (h : Option.Rel S x y)
    (hf : ∀ a b, S a b → T (f a) (g b)) : Option.Rel T (x.map f) (y.map g) := by
  cases h with
  | some h => exact .some (hf _ _ h)
  | none => exact .none

theorem map_eq_of_rel {f : α → γ} {g : α' → γ} (h : Option.Rel S x y) (hf : ∀ a b, S a b → f a = g b) :
    x.map f = y.map g := by
  cases h with
  | some h => exact congrArg some (hf _ _ h)
  | none => rfl

end Optional

end TwoRuns
