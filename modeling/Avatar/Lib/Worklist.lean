import Mathlib.Algebra.Order.BigOperators.Group.Finset
import Mathlib.Data.List.Nodup
import Mathlib.Logic.Relation

/-! A worklist over a graph that is explored while it is built. `seen` lists the nodes in the order in
    which they were met. The nodes before position `k` have been visited and the others form the queue,
    so a node is queued once, when it is met. -/

namespace Worklist
variable {α : Type}

section Meet
variable [DecidableEq α]

/-- Meet the nodes of `xs` one after the other: a node that has not been seen is queued. -/
def meet (seen : List α) : List α → List α
  | [] => seen
  | x :: xs => meet (if x ∈ seen then seen else seen ++ [x]) xs

variable {seen xs : List α} {x : α}

theorem meet_append (seen xs ys : List α) : meet seen (xs ++ ys) = meet (meet seen xs) ys := by
  induction xs generalizing seen with
  | nil => rfl
  | cons x xs ih => exact ih _

theorem prefix_meet (seen xs : List α) : seen <+: meet seen xs := by
  induction xs generalizing seen with
  | nil => exact List.prefix_refl _
  | cons x xs ih =>
    refine List.IsPrefix.trans ?_ (ih _)
    split
    · exact List.prefix_refl _
    · exact List.prefix_append ..

theorem mem_meet : x ∈ meet seen xs ↔ x ∈ seen ∨ x ∈ xs := by
  induction xs generalizing seen with
  | nil => simp [meet]
  | cons y ys ih =>
    rw [meet, ih, List.mem_cons]
    split
    · rename_i hy
      refine ⟨Or.imp_right .inr, ?_⟩
      rintro (h | rfl | h)
      · exact .inl h
      · exact .inl hy
      · exact .inr h
    · rw [List.mem_append, List.mem_singleton, or_assoc]

theorem meet_nodup (h : seen.Nodup) : (meet seen xs).Nodup := by
  induction xs generalizing seen with
  | nil => exact h
  | cons x xs ih =>
    refine ih ?_
    split
    · exact h
    · rename_i hx
      exact List.nodup_append.mpr ⟨h, List.nodup_singleton x, fun a ha b hb hab =>
        hx (List.mem_singleton.mp hb ▸ hab ▸ ha)⟩

end Meet

def Reachable (succ : α → List α) (root x : α) : Prop := Relation.ReflTransGen (fun a b => b ∈ succ a) root x

/-- What is reached from a node of a closed list is in the list. -/
theorem mem_of_reachable {succ : α → List α} {root x : α} {nodes : List α} (hroot : root ∈ nodes)
    (hclosed : nodes.flatMap succ ⊆ nodes) (h : Reachable succ root x) : x ∈ nodes := by
  induction h with
  | refl => exact hroot
  | tail _ hsucc ih => exact hclosed (List.mem_flatMap.mpr ⟨_, ih, hsucc⟩)

/-- The state of the exploration from `root` after `k` visits. -/
structure Explored (succ : α → List α) (root : α) (k : Nat) (seen : List α) : Prop where
  nodup : seen.Nodup
  first : seen[0]? = some root
  visited : k ≤ seen.length
  reachable : ∀ x ∈ seen, Reachable succ root x
  closed : ∀ i x, i < k → seen[i]? = some x → ∀ y ∈ succ x, y ∈ seen

namespace Explored
variable {succ : α → List α} {root x : α} {k : Nat} {seen : List α}

theorem init (succ : α → List α) (root : α) : Explored succ root 0 [root] where
  nodup := List.nodup_singleton root
  first := rfl
  visited := Nat.zero_le _
  reachable _ h := List.mem_singleton.mp h ▸ .refl
  closed _ _ h := absurd h (Nat.not_lt_zero _)

/-- One visit: the successors of the next node are met. -/
theorem step [DecidableEq α] (h : Explored succ root k seen) (hx : seen[k]? = some x) :
    Explored succ root (k + 1) (meet seen (succ x)) := by
  obtain ⟨tail, htail⟩ := prefix_meet seen (succ x)
  have hlen : seen.length ≤ (meet seen (succ x)).length := by
    rw [← htail, List.length_append]
    exact Nat.le_add_right ..
  have hold : ∀ i, i < seen.length → (meet seen (succ x))[i]? = seen[i]? := fun i hi => by
    rw [← htail, List.getElem?_append_left hi]
  obtain ⟨hk, -⟩ := List.getElem?_eq_some_iff.mp hx
  refine ⟨meet_nodup h.nodup, ?_, Nat.le_trans hk hlen, fun y hy => ?_, fun i y hi hy z hz => ?_⟩
  · rw [hold 0 (Nat.zero_lt_of_lt hk), h.first]
  · rcases mem_meet.mp hy with hy | hy
    · exact h.reachable y hy
    · exact (h.reachable x (List.mem_of_getElem? hx)).tail hy
  · rcases Nat.lt_succ_iff_lt_or_eq.mp hi with hi | rfl
    · rw [hold i (Nat.lt_trans hi hk)] at hy
      exact mem_meet.mpr (.inl (h.closed i y hi hy z hz))
    · rw [hold i hk, hx] at hy
      cases hy
      exact mem_meet.mpr (.inr hz)

/-- When every node has been visited the nodes seen are those that can be reached. -/
theorem mem_iff (h : Explored succ root seen.length seen) (x : α) : x ∈ seen ↔ Reachable succ root x := by
  refine ⟨h.reachable x, fun hx => ?_⟩
  induction hx with
  | refl => exact List.mem_of_getElem? h.first
  | tail _ hbc ih =>
    obtain ⟨i, hi, hb⟩ := List.mem_iff_getElem.mp ih
    exact h.closed i _ hi (List.getElem?_eq_some_iff.mpr ⟨hi, hb⟩) _ hbc

/-- Where only the nodes of a finite set have successors, and at most `b` of them, few nodes are seen. -/
theorem length_le [DecidableEq α] (h : Explored succ root k seen) {nodes : Finset α} {b : Nat}
    (hnodes : ∀ x, succ x ≠ [] → x ∈ nodes) (hsucc : ∀ x, (succ x).length ≤ b) : seen.length ≤ 1 + b * nodes.card := by
  have hsubset : seen.toFinset ⊆ insert root (nodes.biUnion fun x => (succ x).toFinset) := by
    intro x hx
    cases h.reachable x (List.mem_toFinset.mp hx) with
    | refl => exact Finset.mem_insert_self ..
    | @tail y _ _ hxy =>
      refine Finset.mem_insert_of_mem (Finset.mem_biUnion.mpr ⟨y, hnodes y ?_, List.mem_toFinset.mpr hxy⟩)
      exact List.ne_nil_of_mem hxy
  have hcard : (nodes.biUnion fun x => (succ x).toFinset).card ≤ nodes.card * b :=
    Finset.card_biUnion_le_card_mul _ _ _ fun x _ => (List.toFinset_card_le _).trans (hsucc x)
  calc seen.length = seen.toFinset.card := (List.toFinset_card_of_nodup h.nodup).symm
    _ ≤ (insert root (nodes.biUnion fun x => (succ x).toFinset)).card := Finset.card_le_card hsubset
    _ ≤ (nodes.biUnion fun x => (succ x).toFinset).card + 1 := Finset.card_insert_le ..
    _ ≤ 1 + b * nodes.card := by
      rw [Nat.add_comm, Nat.mul_comm b]
      exact Nat.add_le_add_left hcard 1

end Explored

end Worklist
