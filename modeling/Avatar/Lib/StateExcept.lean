import Mathlib.Data.List.Basic

/-! Programs with a state and exceptions. A program returns with a postcondition if it raises nothing and the
    postcondition holds of its result and of the state it leaves. -/

namespace StateExcept

section Sequence
variable {σ ε α β : Type} {x : EStateM ε σ α} {f : α → EStateM ε σ β} {a : α} {s s' : σ}

theorem bind_ok (h : x s = .ok a s') : (x >>= f) s = f a s' := by
  show EStateM.bind x f s = _
  rw [EStateM.bind, h]

theorem bind_error {e : ε} (h : x s = .error e s') : (x >>= f) s = .error e s' := by
  show EStateM.bind x f s = _
  rw [EStateM.bind, h]

theorem tryCatch_ok {handle : ε → EStateM ε σ α} (h : x s = .ok a s') : tryCatch x handle s = .ok a s' := by
  show EStateM.tryCatch x handle s = _
  rw [EStateM.tryCatch, h]

end Sequence

theorem exists_of_bind_ok {ε α β : Type} {x : Except ε α} {f : α → Except ε β} {b : β} (h : (x >>= f) = .ok b) :
    ∃ a, x = .ok a ∧ f a = .ok b := by
  cases x with
  | error e => cases h
  | ok a => exact ⟨a, rfl, h⟩

theorem error_of_bind {ε α β : Type} {x : Except ε α} {f : α → Except ε β} {e : ε} (h : (x >>= f) = .error e) :
    x = .error e ∨ ∃ a, x = .ok a ∧ f a = .error e := by
  cases x with
  | error e' => exact .inl (congrArg _ (Except.error.inj h))
  | ok a => exact .inr ⟨a, rfl, h⟩

theorem exists_of_map_ok {ε α β : Type} {x : Except ε α} {f : α → β} {b : β} (h : x.map f = .ok b) :
    ∃ a, x = .ok a ∧ f a = b := by
  cases x with
  | error e => cases h
  | ok a => exact ⟨a, rfl, Except.ok.inj h⟩

theorem error_of_map {ε α β : Type} {x : Except ε α} {f : α → β} {e : ε} (h : x.map f = .error e) : x = .error e := by
  cases x with
  | error e' => exact congrArg _ (Except.error.inj h)
  | ok a => cases h

/-- A computation without a state -/
def lift {σ ε α : Type} (x : Except ε α) : EStateM ε σ α := fun s =>
  match x with
  | .ok a => .ok a s
  | .error e => .error e s

theorem lift_ok {σ ε α : Type} {x : Except ε α} {a : α} (h : x = .ok a) (s : σ) : lift x s = .ok a s := by
  subst h
  rfl

def Returns {σ ε α : Type} (x : EStateM ε σ α) (s : σ) (Q : α → σ → Prop) : Prop := ∃ a s', x s = .ok a s' ∧ Q a s'

section Rules
variable {σ ε α β ι : Type} {x : EStateM ε σ α} {f : α → EStateM ε σ β} {s : σ} {Q R : α → σ → Prop}
  {S : β → σ → Prop}

theorem Returns.pure {a : α} (h : Q a s) : Returns (Pure.pure a : EStateM ε σ α) s Q := ⟨a, s, rfl, h⟩

theorem Returns.mono (h : Returns x s Q) (hle : ∀ a s', Q a s' → R a s') : Returns x s R := by
  obtain ⟨a, s', hx, ha⟩ := h
  exact ⟨a, s', hx, hle a s' ha⟩

theorem Returns.bind (h : Returns x s Q) (hf : ∀ a s', Q a s' → Returns (f a) s' S) : Returns (x >>= f) s S := by
  obtain ⟨a, s', hx, ha⟩ := h
  obtain ⟨b, s'', hb, hS⟩ := hf a s' ha
  exact ⟨b, s'', by rw [bind_ok hx, hb], hS⟩

/-- A loop over a list keeps an invariant that speaks of the part of the list that has been done. -/
theorem Returns.forM {l : List ι} {body : ι → EStateM ε σ Unit} {I : List ι → σ → Prop}
    (hbody : ∀ done i s, done ++ [i] <+: l → I done s → Returns (body i) s fun _ => I (done ++ [i]))
    (hinv : I [] s) : Returns (ForM.forM l body) s fun _ => I l := by
  suffices h : ∀ todo done s, done ++ todo = l → I done s → Returns (ForM.forM todo body) s fun _ => I l from
    h l [] s rfl hinv
  intro todo
  induction todo with
  | nil =>
    intro done s hl hinv
    rw [List.append_nil] at hl
    exact Returns.pure (hl ▸ hinv)
  | cons i todo ih =>
    intro done s hl hinv
    have hl' : done ++ [i] ++ todo = l := by rw [List.append_assoc]; exact hl
    exact Returns.bind (hbody done i s ⟨todo, hl'⟩ hinv) fun _ s' hinv' => ih (done ++ [i]) s' hl' hinv'

/-- A loop over the numbers below `n` keeps an invariant that speaks of the number of rounds. -/
theorem Returns.forM_range {n : Nat} {body : Nat → EStateM ε σ Unit} {I : Nat → σ → Prop}
    (hbody : ∀ i < n, ∀ s, I i s → Returns (body i) s fun _ => I (i + 1)) (hinv : I 0 s) :
    Returns (ForM.forM (List.range n) body) s fun _ => I n := by
  have h : Returns (ForM.forM (List.range n) body) s fun _ => I (List.range n).length := by
    refine Returns.forM (I := fun done => I done.length) ?_ hinv
    rintro done i s' ⟨todo, hl⟩ hinv'
    have hi : (List.range n)[done.length]? = some i := by
      rw [← hl, List.append_assoc, List.getElem?_append_right (Nat.le_refl _), Nat.sub_self]
      rfl
    obtain ⟨hlt, hi⟩ := List.getElem?_eq_some_iff.mp hi
    rw [List.length_range] at hlt
    rw [List.getElem_range] at hi
    subst hi
    rw [List.length_append]
    exact hbody _ hlt s' hinv'
  rwa [List.length_range] at h

end Rules

/-! ### What holds however a program ends -/

/-- The state that a program leaves -/
def final {σ ε α : Type} : EStateM.Result ε σ α → σ
  | .ok _ s => s
  | .error _ s => s

/-- A program returns with a postcondition, or raises an exception with another one. -/
def Ends {σ ε α : Type} (x : EStateM ε σ α) (s : σ) (Q : α → σ → Prop) (E : ε → σ → Prop) : Prop :=
  match x s with
  | .ok a s' => Q a s'
  | .error e s' => E e s'

section Ends
variable {σ ε α β : Type} {x : EStateM ε σ α} {f : α → EStateM ε σ β} {s s' : σ} {e : ε} {Q : α → σ → Prop}
  {S : β → σ → Prop} {E : ε → σ → Prop}

theorem Ends.of_error (h : x s = .error e s') (he : E e s') : Ends x s Q E := by
  rw [Ends, h]
  exact he

theorem Ends.pure {a : α} (h : Q a s) : Ends (Pure.pure a : EStateM ε σ α) s Q E := h

theorem Ends.throw (h : E e s) : Ends (MonadExcept.throw e : EStateM ε σ α) s Q E := h

theorem Ends.error (h : Ends x s Q E) (hx : x s = .error e s') : E e s' := by
  rw [Ends, hx] at h
  exact h

theorem Ends.ok {a : α} (h : Ends x s Q E) (hx : x s = .ok a s') : Q a s' := by
  rw [Ends, hx] at h
  exact h

theorem Ends.mono {R : α → σ → Prop} (h : Ends x s Q E) (hle : ∀ a s', Q a s' → R a s') : Ends x s R E := by
  cases hx : x s with
  | ok a s' =>
    rw [Ends, hx]
    exact hle a s' (h.ok hx)
  | error e s' => exact .of_error hx (h.error hx)

theorem Ends.final {P : σ → Prop} (h : Ends x s Q E) (hok : ∀ a s', Q a s' → P s') (herror : ∀ e s', E e s' → P s') :
    P (final (x s)) := by
  rw [Ends] at h
  cases hx : x s with
  | ok a s' =>
    rw [hx] at h
    exact hok a s' h
  | error e s' =>
    rw [hx] at h
    exact herror e s' h

theorem Ends.bind (h : Ends x s Q E) (hf : ∀ a s', Q a s' → Ends (f a) s' S E) : Ends (x >>= f) s S E := by
  cases hx : x s with
  | ok a s' =>
    rw [Ends, hx] at h
    rw [Ends, bind_ok hx]
    exact hf a s' h
  | error e s' => exact .of_error (bind_error hx) (h.error hx)

theorem Returns.ends (h : Returns x s Q) : Ends x s Q E := by
  obtain ⟨a, s', hx, ha⟩ := h
  rw [Ends, hx]
  exact ha

end Ends

/-- A program leads only to states that are related to the one it starts in. -/
def Keeps {σ ε α : Type} (R : σ → σ → Prop) (x : EStateM ε σ α) : Prop := ∀ s, R s (final (x s))

namespace Keeps
variable {σ ε α β ι : Type} {R : σ → σ → Prop}

theorem pure [Std.Refl R] (a : α) : Keeps R (Pure.pure a : EStateM ε σ α) := fun s => refl_of R s

theorem throw [Std.Refl R] (e : ε) : Keeps R (MonadExcept.throw e : EStateM ε σ α) := fun s => refl_of R s

theorem bind [IsTrans σ R] {x : EStateM ε σ α} {f : α → EStateM ε σ β} (hx : Keeps R x) (hf : ∀ a, Keeps R (f a)) :
    Keeps R (x >>= f) := by
  intro s
  have h := hx s
  cases hrun : x s with
  | ok a s' =>
    rw [hrun] at h
    rw [bind_ok hrun]
    exact trans_of R h (hf a s')
  | error e s' =>
    rw [hrun] at h
    rw [bind_error hrun]
    exact h

theorem ite {c : Prop} [Decidable c] {x y : EStateM ε σ α} (hx : Keeps R x) (hy : Keeps R y) :
    Keeps R (if c then x else y) := by
  split
  · exact hx
  · exact hy

theorem forM [Std.Refl R] [IsTrans σ R] {l : List ι} {body : ι → EStateM ε σ Unit} (hbody : ∀ i, Keeps R (body i)) :
    Keeps R (ForM.forM l body) := by
  induction l with
  | nil => exact Keeps.pure ()
  | cons i l ih => exact (hbody i).bind fun _ => ih

theorem mapM [Std.Refl R] [IsTrans σ R] {l : List ι} {body : ι → EStateM ε σ α} (hbody : ∀ i, Keeps R (body i)) :
    Keeps R (l.mapM body) := by
  induction l with
  | nil => exact Keeps.pure []
  | cons i l ih =>
    rw [List.mapM_cons]
    exact (hbody i).bind fun _ => ih.bind fun _ => Keeps.pure _

end Keeps

/-! ### Programs that only add to a list -/

/-- The result with some elements in front of the list -/
def prepend {ε α τ : Type} (l : List τ) : EStateM.Result ε (List τ) α → EStateM.Result ε (List τ) α
  | .ok a l' => .ok a (l ++ l')
  | .error e l' => .error e (l ++ l')

/-- The program adds to the list what it adds to the empty list. -/
def Appends {ε α τ : Type} (x : EStateM ε (List τ) α) : Prop := ∀ l, x l = prepend l (x [])

namespace Appends
variable {ε α β τ : Type} {x : EStateM ε (List τ) α} {f : α → EStateM ε (List τ) β}

theorem lift (y : Except ε α) : Appends (StateExcept.lift y : EStateM ε (List τ) α) := by
  intro l
  cases y with
  | ok a => exact congrArg _ (List.append_nil l).symm
  | error e => exact congrArg _ (List.append_nil l).symm

theorem pure (a : α) : Appends (Pure.pure a : EStateM ε (List τ) α) := lift (.ok a)

theorem add (l' : List τ) : Appends (modify fun l => l ++ l' : EStateM ε (List τ) PUnit) := fun _ => rfl

theorem bind (hx : Appends x) (hf : ∀ a, Appends (f a)) : Appends (x >>= f) := by
  intro l
  cases hrun : x [] with
  | ok a l' =>
    have hl : x l = .ok a (l ++ l') := by rw [hx l, hrun]; rfl
    rw [bind_ok hl, bind_ok hrun, hf a (l ++ l'), hf a l']
    cases f a [] with
    | ok b l'' => exact congrArg _ (List.append_assoc _ _ _)
    | error e l'' => exact congrArg _ (List.append_assoc _ _ _)
  | error e l' =>
    have hl : x l = .error e (l ++ l') := by rw [hx l, hrun]; rfl
    rw [bind_error hl, bind_error hrun]
    rfl

theorem ite {c : Prop} [Decidable c] {x y : EStateM ε (List τ) α} (hx : Appends x) (hy : Appends y) :
    Appends (if c then x else y) := by
  split
  · exact hx
  · exact hy

theorem final (hx : Appends x) (l : List τ) : final (x l) = l ++ StateExcept.final (x []) := by
  rw [hx l]
  cases x [] <;> rfl

end Appends

/-! ### A part of the state -/

/-- The result with a part of the state that is left -/
def mapState {σ σ' ε α : Type} (p : σ → σ') : EStateM.Result ε σ α → EStateM.Result ε σ' α
  | .ok a s => .ok a (p s)
  | .error e s => .error e (p s)

theorem final_mapState {σ σ' ε α : Type} (p : σ → σ') (r : EStateM.Result ε σ α) : final (mapState p r) = p (final r) := by
  cases r <;> rfl

/-- The first program does on a part of the state what the second one does, whatever it does on the rest. -/
def Projects {σ σ' ε α : Type} (p : σ → σ') (x : EStateM ε σ α) (y : EStateM ε σ' α) : Prop :=
  ∀ s, mapState p (x s) = y (p s)

namespace Projects
variable {σ σ' ε α β ι : Type} {p : σ → σ'} {x : EStateM ε σ α} {y : EStateM ε σ' α} {f : α → EStateM ε σ β}
  {g : α → EStateM ε σ' β}

theorem pure (a : α) : Projects p (Pure.pure a : EStateM ε σ α) (Pure.pure a) := fun _ => rfl

theorem throw (e : ε) : Projects p (MonadExcept.throw e : EStateM ε σ α) (MonadExcept.throw e) := fun _ => rfl

theorem lift (a : Except ε α) : Projects p (StateExcept.lift a : EStateM ε σ α) (StateExcept.lift a) := by
  intro s
  cases a <;> rfl

theorem update {u : σ → σ} {v : σ' → σ'} (h : ∀ s, p (u s) = v (p s)) :
    Projects p (modify u : EStateM ε σ PUnit) (modify v) := fun s => congrArg (EStateM.Result.ok PUnit.unit) (h s)

theorem bind (hx : Projects p x y) (hf : ∀ a, Projects p (f a) (g a)) : Projects p (x >>= f) (y >>= g) := by
  intro s
  cases hrun : x s with
  | ok a s' =>
    have hy : y (p s) = .ok a (p s') := by rw [← hx s, hrun]; rfl
    rw [bind_ok hrun, bind_ok hy, hf a s']
  | error e s' =>
    have hy : y (p s) = .error e (p s') := by rw [← hx s, hrun]; rfl
    rw [bind_error hrun, bind_error hy]
    rfl

theorem ite {c : Prop} [Decidable c] {x' : EStateM ε σ α} {y' : EStateM ε σ' α} (hx : Projects p x y)
    (hx' : Projects p x' y') : Projects p (if c then x else x') (if c then y else y') := by
  split
  · exact hx
  · exact hx'

theorem forM {l : List ι} {body : ι → EStateM ε σ Unit} {body' : ι → EStateM ε σ' Unit}
    (h : ∀ i, Projects p (body i) (body' i)) : Projects p (ForM.forM l body) (ForM.forM l body') := by
  induction l with
  | nil => exact pure ()
  | cons i l ih => exact (h i).bind fun _ => ih

theorem mapM {l : List ι} {body : ι → EStateM ε σ α} {body' : ι → EStateM ε σ' α}
    (h : ∀ i, Projects p (body i) (body' i)) : Projects p (l.mapM body) (l.mapM body') := by
  induction l with
  | nil => exact pure []
  | cons i l ih =>
    rw [List.mapM_cons, List.mapM_cons]
    exact (h i).bind fun _ => ih.bind fun _ => pure _

theorem final (h : Projects p x y) (s : σ) : p (final (x s)) = StateExcept.final (y (p s)) := by
  rw [← h s, final_mapState]

end Projects

end StateExcept
