import Avatar.Lib.StateExcept

/-! Traversals of a list: the fold of a step that may fail over a stream, what `mapM` maps a list to, what holds at
    each element that is reached, and two concatenations that are compared part by part. -/

namespace Traversal

section Fold
variable {α β ε : Type} {f : β → α → Except ε β} {b b' : β}

theorem foldlM_flatten (f : β → α → Except ε β) (b : β) (L : List (List α)) :
    L.flatten.foldlM f b = L.foldlM (fun b l => l.foldlM f b) b := by
  induction L generalizing b with
  | nil => rfl
  | cons l L ih => simp only [List.flatten_cons, List.foldlM_append, List.foldlM_cons, ih]

theorem foldlM_cons_ok {a : α} (h : f b a = .ok b') (l : List α) : (a :: l).foldlM f b = l.foldlM f b' := by
  rw [List.foldlM_cons, h]
  rfl

theorem foldlM_append_ok {l : List α} (h : l.foldlM f b = .ok b') (l' : List α) :
    (l ++ l').foldlM f b = l'.foldlM f b' := by
  rw [List.foldlM_append, h]
  rfl

theorem foldlM_append_eq_ok {l l' : List α} (h : (l ++ l').foldlM f b = .ok b') :
    ∃ c, l.foldlM f b = .ok c ∧ l'.foldlM f c = .ok b' := by
  rw [List.foldlM_append] at h
  exact StateExcept.exists_of_bind_ok h

theorem foldlM_cons_eq_ok {a : α} {l : List α} (h : (a :: l).foldlM f b = .ok b') :
    ∃ c, f b a = .ok c ∧ l.foldlM f c = .ok b' := by
  rw [List.foldlM_cons] at h
  exact StateExcept.exists_of_bind_ok h

end Fold

section Map
variable {α β ε : Type} {l : List α} {l' : List β}

theorem mapM_eq_some_iff {f : α → Option β} : l.mapM f = some l' ↔ List.Forall₂ (fun a b => f a = some b) l l' := by
  induction l generalizing l' with
  | nil =>
    rw [List.mapM_nil]
    constructor
    · intro h
      cases h
      exact .nil
    · intro h
      cases h
      rfl
  | cons a l ih =>
    rw [List.mapM_cons]
    constructor
    · intro h
      obtain ⟨b, hb, h⟩ := Option.bind_eq_some_iff.mp h
      obtain ⟨bs, hbs, h⟩ := Option.bind_eq_some_iff.mp h
      cases h
      exact .cons hb (ih.mp hbs)
    · intro h
      cases h with
      | cons hb hbs => rw [hb, ih.mpr hbs]; rfl

theorem exists_mapM_some {f : α → Option β} (h : ∀ a ∈ l, ∃ b, f a = some b) : ∃ l', l.mapM f = some l' := by
  induction l with
  | nil => exact ⟨[], rfl⟩
  | cons a l ih =>
    obtain ⟨b, hb⟩ := h a (.head _)
    obtain ⟨bs, hbs⟩ := ih fun a ha => h a (List.mem_cons_of_mem _ ha)
    exact ⟨b :: bs, by rw [List.mapM_cons, hb, hbs]; rfl⟩

theorem getElem?_mapM {f : α → Option β} (h : l.mapM f = some l') {i : Nat} {a : α} (ha : l[i]? = some a) :
    ∃ b, l'[i]? = some b ∧ f a = some b := by
  rw [mapM_eq_some_iff] at h
  induction h generalizing i with
  | nil => cases ha
  | cons hb _ ih =>
    cases i with
    | zero =>
      cases ha
      exact ⟨_, rfl, hb⟩
    | succ i => exact ih ha

theorem mapM_eq_ok {f : α → Except ε β} {g : α → β} (h : ∀ a ∈ l, f a = .ok (g a)) : l.mapM f = .ok (l.map g) := by
  induction l with
  | nil => rfl
  | cons a l ih =>
    rw [List.mapM_cons, h a (.head _), ih fun a ha => h a (List.mem_cons_of_mem _ ha)]
    rfl

theorem exists_mapM_ok_iff {f : α → Except ε β} : (∃ l', l.mapM f = .ok l') ↔ ∀ a ∈ l, ∃ b, f a = .ok b := by
  induction l with
  | nil => exact iff_of_true ⟨[], rfl⟩ (fun a h => by cases h)
  | cons a l ih =>
    rw [List.forall_mem_cons, ← ih, List.mapM_cons]
    cases f a with
    | error e => exact iff_of_false (by rintro ⟨_, ⟨⟩⟩) (by rintro ⟨⟨_, ⟨⟩⟩, -⟩)
    | ok b =>
      cases l.mapM f with
      | error e => exact iff_of_false (by rintro ⟨_, ⟨⟩⟩) (by rintro ⟨-, _, ⟨⟩⟩)
      | ok l' => exact iff_of_true ⟨b :: l', rfl⟩ ⟨⟨b, rfl⟩, l', rfl⟩

end Map

section Prefix
variable {α : Type} {a : α} {l : List α}

/-- What holds whenever an element of the list is reached, by the first element and the others -/
theorem forall_prefix_cons {P : List α → α → Prop} : (∀ done x, done ++ [x] <+: a :: l → P done x) ↔
    P [] a ∧ ∀ done x, done ++ [x] <+: l → P (a :: done) x := by
  constructor
  · intro h
    refine ⟨h [] a ⟨l, rfl⟩, fun done x hpre => h (a :: done) x ?_⟩
    rw [List.cons_append]
    exact List.cons_prefix_cons.mpr ⟨rfl, hpre⟩
  · rintro ⟨hhead, htail⟩ done x hpre
    cases done with
    | nil =>
      cases (List.cons_prefix_cons.mp hpre).1
      exact hhead
    | cons b done =>
      rw [List.cons_append] at hpre
      obtain ⟨rfl, hrest⟩ := List.cons_prefix_cons.mp hpre
      exact htail done x hrest

end Prefix

section FlatMap
variable {α : Type} {f g : Nat → List α}

theorem length_flatMap_range_le (hle : ∀ i, (f i).length ≤ (g i).length) (n : Nat) :
    ((List.range n).flatMap f).length ≤ ((List.range n).flatMap g).length := by
  induction n with
  | zero => exact Nat.le_refl _
  | succ n ih =>
    simp only [List.range_succ, List.flatMap_append, List.flatMap_singleton, List.length_append]
    exact Nat.add_le_add ih (hle n)

/-- If no part is longer than its counterpart, the wholes agree only when all the parts do. -/
theorem flatMap_range_eq_iff (hle : ∀ i, (f i).length ≤ (g i).length) (n : Nat) :
    (List.range n).flatMap f = (List.range n).flatMap g ↔ ∀ i < n, f i = g i := by
  induction n with
  | zero => exact iff_of_true rfl fun i hi => absurd hi (Nat.not_lt_zero i)
  | succ n ih =>
    simp only [List.range_succ, List.flatMap_append, List.flatMap_singleton]
    constructor
    · intro heq i hi
      have hlength := congrArg List.length heq
      simp only [List.length_append] at hlength
      have hfront := length_flatMap_range_le hle n
      have hback := hle n
      obtain ⟨hfront, hback⟩ := List.append_inj heq (by omega)
      rcases Nat.lt_succ_iff_lt_or_eq.mp hi with hi | rfl
      · exact ih.mp hfront i hi
      · exact hback
    · intro h
      rw [ih.mpr fun i hi => h i (Nat.lt_succ_of_lt hi), h n (Nat.lt_succ_self n)]

end FlatMap

end Traversal
