import Avatar.Translator.Build

/-! The worklist of the translation ends. Every unit that is queued is one of the entry point or of a successor of a
    program counter in the ranges, which has at most two, and no program counter is queued twice. The number of
    units is bounded by what has not been queued yet, not by the length of the queue. -/

namespace Avatar.Translator
namespace Graph

/-- The program counters in the ranges. -/
def inRangePcs (source : Source) : Finset (BitVec 64) := Finset.univ.filter fun pc => source.pcRanges.isInRange pc = true

variable {source : Source} {function k : Nat} {g : Graph} {pc : BitVec 64}

theorem mem_inRangePcs : pc ∈ inRangePcs source ↔ source.pcRanges.isInRange pc = true := by
  simp only [inRangePcs, Finset.mem_filter, Finset.mem_univ, true_and]

/-- A program counter out of the ranges has no successors. -/
theorem mem_inRangePcs_of_successors (h : successors source pc ≠ []) : pc ∈ inRangePcs source := by
  rw [mem_inRangePcs]
  by_contra hrange
  rw [successors, if_neg hrange] at h
  exact h rfl

theorem length_targets_le (successor : Successor) (inst : MCInst) : (successor.targets inst).length ≤ 2 := by
  cases successor <;> simp [Successor.targets]

theorem length_successors_le (source : Source) (pc : BitVec 64) : (successors source pc).length ≤ 2 := by
  unfold successors
  split
  · split
    · rename_i inst _
      split
      · rename_i translator _
        cases translator inst ⟨[], initialValues⟩ with
        | none => simp
        | some r => exact length_targets_le r.1 inst
      · simp
    · simp
  · simp

theorem Built.length_pcs_le (h : Built source function k g) : g.pcs.length ≤ 1 + 2 * (inRangePcs source).card :=
  h.explored.length_le (fun _ => mem_inRangePcs_of_successors) (length_successors_le source)

theorem take_drop_cons {pcs : List (BitVec 64)} (h : pcs[k]? = some pc) (n : Nat) :
    (pcs.drop k).take (n + 1) = pc :: (pcs.drop (k + 1)).take n := by
  obtain ⟨hk, rfl⟩ := List.getElem?_eq_some_iff.mp h
  rw [List.drop_eq_getElem_cons hk, List.take_succ_cons]

theorem Built.translateLoop_of_none (h : Built source function k g) (hpc : g.pcs[k]? = none) (fuel : Nat) :
    Translator.translateLoop source function fuel (g.toCache function k) = some ⟨[], none, g.toCache function k⟩ := by
  obtain rfl := Nat.le_antisymm h.explored.visited (List.getElem?_eq_none_iff.mp hpc)
  exact translateLoop_nil unfinished_toCache_nil

/-- The units that the loop takes are the next ones of a graph that it builds. -/
theorem Built.trace_eq (h : Built source function k g) {fuel : Nat} {o : Outcome}
    (ho : Translator.translateLoop source function fuel (g.toCache function k) = some o) :
    ∃ k' g', Built source function k' g' ∧ g.pcs <+: g'.pcs ∧
      ∃ n, o.trace = ((g'.pcs.drop k).take n).map (function, ·) := by
  induction fuel generalizing k g o with
  | zero =>
    cases hpc : g.pcs[k]? with
    | some pc =>
      rw [translateLoop_zero (unfinished_toCache hpc)] at ho
      cases ho
    | none =>
      rw [h.translateLoop_of_none hpc] at ho
      cases ho
      exact ⟨k, g, h, List.prefix_refl _, 0, rfl⟩
  | succ fuel ih =>
    cases hpc : g.pcs[k]? with
    | some pc =>
      cases hp : piece source function pc with
      | some p =>
        rw [translateLoop_ok (unfinished_toCache hpc) (h.process hpc hp)] at ho
        obtain ⟨o', ho', rfl⟩ := Option.map_eq_some_iff.mp ho
        obtain ⟨k', g', hbuilt, hprefix, n, htrace⟩ := ih (h.link hpc hp) ho'
        have hpc' : g'.pcs[k]? = some pc := by
          obtain ⟨tail, htail⟩ := prefix_link.trans hprefix
          rw [← htail, List.getElem?_append_left (List.getElem?_eq_some_iff.mp hpc).1, hpc]
        exact ⟨k', g', hbuilt, prefix_link.trans hprefix, n + 1, by rw [take_drop_cons hpc', List.map_cons, htrace]⟩
      | none =>
        obtain ⟨failure, c, hc⟩ := h.process_error hpc hp
        rw [translateLoop_error (unfinished_toCache hpc) hc] at ho
        cases ho
        exact ⟨k, g, h, List.prefix_refl _, 1, by rw [take_drop_cons hpc]; rfl⟩
    | none =>
      rw [h.translateLoop_of_none hpc] at ho
      cases ho
      exact ⟨k, g, h, List.prefix_refl _, 0, rfl⟩

/-- From an empty cache the loop ends after at most one iteration, and two more for each program counter in the
    ranges. An iteration translates the instruction of a program counter in the ranges or gives an exit to one that
    is not, and no program counter has two iterations. -/
theorem translation_terminates (source : Source) (function : Nat) :
    ∃ c o, construct source function Cache.empty = .ok () c ∧
      Translator.translateLoop source function (1 + 2 * (inRangePcs source).card) c = some o ∧
      (∀ pc, (o.trace.map (·.2)).count pc ≤ 1) ∧ o.trace.length ≤ 1 + 2 * (inRangePcs source).card := by
  have hbuilt := Built.initial source function
  generalize hbound : 1 + 2 * (inRangePcs source).card = bound
  obtain ⟨o, ho, -⟩ := hbuilt.translateLoop_of_bound (fun _ _ h => hbound ▸ h.length_pcs_le) bound (Nat.le_add_left ..)
  obtain ⟨k, g, hg, -, n, htrace⟩ := hbuilt.trace_eq ho
  have hpcs : o.trace.map (·.2) = (g.pcs.drop 0).take n := by
    rw [htrace, List.map_map]
    exact List.map_id' _
  have hsublist : ((g.pcs.drop 0).take n).Sublist g.pcs := (List.take_sublist ..).trans (List.drop_sublist ..)
  refine ⟨_, o, construct_empty source function, ho, fun pc => ?_, ?_⟩
  · rw [hpcs]
    exact List.nodup_iff_count_le_one.mp (pcs_nodup.sublist hsublist) pc
  · have hlength : o.trace.length = ((g.pcs.drop 0).take n).length := by rw [← hpcs, List.length_map]
    rw [hlength, ← hbound]
    exact hsublist.length_le.trans hg.length_pcs_le

end Graph
end Avatar.Translator
