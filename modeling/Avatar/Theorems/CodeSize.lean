import Avatar.Translator.Compile

/-! How much of a section is copied. The loop over the words of a section goes from the last one down, and stops in
    front of the first: a section in which only the first word is not zero is taken for an empty one. -/

namespace Avatar.Translator
open Bytes

namespace MemoryBlock

/-- The word with the index `i` -/
def word (block : MemoryBlock) (i : Nat) : Nat := ofLE (slice block.contents (4 * i) (4 * i + 4))

/-- The last of the first `n` words that is not zero -/
structure IsLast (block : MemoryBlock) (n k : Nat) : Prop where
  lt : k < n
  ne_zero : block.word k ≠ 0
  zero : ∀ i, k < i → i < n → block.word i = 0

/-- What the loop finds in the first `n` words. It does not look at the first of them. -/
inductive Found (block : MemoryBlock) (n : Nat) : Nat → Prop
  | last {k} (hpos : 0 < k) (h : block.IsLast n k) : Found block n (4 * (k + 1))
  | nothing (h : ∀ i, 0 < i → i < n → block.word i = 0) : Found block n 0

variable {block : MemoryBlock} {n : Nat}

theorem IsLast.unique {k k' : Nat} (h : block.IsLast n k) (h' : block.IsLast n k') : k = k' := by
  rcases Nat.lt_trichotomy k k' with hlt | heq | hlt
  · exact absurd (h.zero k' hlt h'.lt) h'.ne_zero
  · exact heq
  · exact absurd (h'.zero k hlt h.lt) h.ne_zero

theorem Found.of_ne_zero (hpos : 0 < n) (h : block.word n ≠ 0) : block.Found (n + 1) (4 * (n + 1)) :=
  .last hpos ⟨Nat.lt_succ_self n, h, fun j hj hj' => absurd hj' (by omega)⟩

theorem Found.succ {size : Nat} (hzero : block.word n = 0) (h : block.Found n size) : block.Found (n + 1) size := by
  cases h with
  | last hpos h =>
    refine .last hpos ⟨Nat.lt_succ_of_lt h.lt, h.ne_zero, fun i hki hi => ?_⟩
    rcases Nat.lt_succ_iff_lt_or_eq.mp hi with hi | rfl
    · exact h.zero i hki hi
    · exact hzero
  | nothing h =>
    refine .nothing fun i hpos hi => ?_
    rcases Nat.lt_succ_iff_lt_or_eq.mp hi with hi | rfl
    · exact h i hpos hi
    · exact hzero

/-! ### Pointers -/

/-- The pointer to the word `i` -/
def ptr (block : MemoryBlock) (i : Nat) : BitVec 64 := block.base + BitVec.ofNat 64 (4 * i)

theorem toNat_ptr {i : Nat} (h : 4 * i ≤ block.contents.length) :
    (block.ptr i).toNat = block.base.toNat + 4 * i := by
  have hfits := block.fits
  rw [ptr, BitVec.toNat_add, BitVec.toNat_ofNat, Nat.mod_eq_of_lt (by omega : 4 * i < 2 ^ 64),
    Nat.mod_eq_of_lt (by omega)]

theorem ptr_sub_base (block : MemoryBlock) (i : Nat) : block.ptr i - block.base = BitVec.ofNat 64 (4 * i) := by
  rw [ptr, BitVec.add_comm, BitVec.add_sub_cancel]

theorem ptr_succ_sub (block : MemoryBlock) (i : Nat) : block.ptr (i + 1) - 4 = block.ptr i := by
  rw [ptr, Nat.mul_add, BitVec.ofNat_add, ← BitVec.add_assoc]
  exact BitVec.add_sub_cancel ..

theorem load_ptr {i : Nat} (h : 4 * (i + 1) ≤ block.contents.length) :
    block.load (block.ptr i) = .ok (block.word i) := by
  have hfits := block.fits
  have hoffset : (block.ptr i - block.base).toNat = 4 * i := by
    rw [ptr_sub_base, BitVec.toNat_ofNat, Nat.mod_eq_of_lt (by omega)]
  rw [load, hoffset]
  exact if_pos h

/-! ### The loop -/

theorem codeSizeLoop_ptr {i : Nat} (h : 4 * (i + 1) ≤ block.contents.length) :
    ∃ size, block.codeSizeLoop (block.ptr i) = .ok (BitVec.ofNat 64 size) ∧ block.Found (i + 1) size := by
  induction i with
  | zero =>
    refine ⟨0, ?_, .nothing fun j hpos hj => absurd hpos (by omega)⟩
    have hptr : block.ptr 0 = block.base := BitVec.add_zero _
    rw [codeSizeLoop, hptr, dif_neg (BitVec.lt_irrefl _)]
    rfl
  | succ i ih =>
    have hbase : block.ptr (i + 1) > block.base := by
      rw [gt_iff_lt, BitVec.lt_def, toNat_ptr (by omega)]
      omega
    rw [codeSizeLoop, dif_pos hbase, load_ptr h, ptr_succ_sub, ptr_sub_base]
    by_cases hzero : block.word (i + 1) = 0
    · obtain ⟨size, hloop, hfound⟩ := ih (by omega)
      refine ⟨size, ?_, hfound.succ hzero⟩
      rw [← hloop]
      exact if_neg (not_not_intro hzero)
    · refine ⟨4 * (i + 1 + 1), ?_, .of_ne_zero (Nat.succ_pos i) hzero⟩
      rw [Nat.mul_add 4 (i + 1), BitVec.ofNat_add]
      exact if_pos hzero

theorem codeSize_found (h : block.contents.length = 4 * n) :
    ∃ size, block.codeSize = .ok (BitVec.ofNat 64 size) ∧ block.Found n size := by
  cases n with
  | zero =>
    have hle : 4#64 ≤ block.base := block.base_ge
    have hlt : ¬ block.base - 4#64 > block.base := by
      have hbase := block.base_ge
      rw [gt_iff_lt, BitVec.lt_def, BitVec.toNat_sub_of_le hle, BitVec.toNat_ofNat]
      omega
    refine ⟨0, ?_, .nothing fun i _ hi => absurd hi (Nat.not_lt_zero i)⟩
    rw [codeSize, h, BitVec.ofNat_eq_ofNat, BitVec.add_zero, codeSizeLoop, dif_neg hlt]
    rfl
  | succ i =>
    have hstart : block.base + BitVec.ofNat 64 block.contents.length - 4 = block.ptr i := by
      rw [h]
      exact ptr_succ_sub block i
    rw [codeSize, hstart]
    exact codeSizeLoop_ptr (Nat.le_of_eq h.symm)

/-! ### All sections -/

/-- What is copied of a section of `n` words ends where its last word ends that is not zero, or later. -/
structure NotTruncated (block : MemoryBlock) (n : Nat) : Prop where
  last : ∀ k, block.IsLast n k → block.codeSize = .ok (BitVec.ofNat 64 (4 * (k + 1)))
  zero : (∀ i < n, block.word i = 0) → block.codeSize = .ok 0
  copied : ∃ code, compile ⟨[], [block]⟩ = .ok code ∧ code.data <+: block.contents ∧
    ∀ i < n, block.word i ≠ 0 → 4 * (i + 1) ≤ code.data.length

theorem compile_eq {size : Nat} (h : block.codeSize = .ok (BitVec.ofNat 64 size)) :
    compile ⟨[], [block]⟩ = .ok (.create 0 block.contents (BitVec.ofNat 32 size)) := by
  have hsize : (BitVec.ofNat 64 size).setWidth 32 = BitVec.ofNat 32 size :=
    BitVec.setWidth_ofNat_of_le (by decide) size
  rw [← hsize]
  simp only [compile, h]
  rfl

theorem length_data (size : Nat) : (CompiledCode.create 0 block.contents (BitVec.ofNat 32 size)).data.length =
    min (size % 2 ^ 32) block.contents.length := by
  rw [CompiledCode.create, List.length_take, BitVec.toNat_ofNat]

/-- All of the code is copied if the first word is not the only one that is not zero, and the last such word ends
    below 4 GiB. -/
theorem notTruncated_iff (block : MemoryBlock) (n : Nat) (h : block.contents.length = 4 * n) :
    block.NotTruncated n ↔ ∀ k, block.IsLast n k → 0 < k ∧ 4 * (k + 1) < 2 ^ 32 := by
  obtain ⟨size, hsize, hfound⟩ := codeSize_found h
  constructor
  · intro hall k hk
    obtain ⟨code, hcode, -, hcopied⟩ := hall.copied
    cases (compile_eq hsize).symm.trans hcode
    have hend := hcopied k hk.lt hk.ne_zero
    rw [length_data] at hend
    refine ⟨Nat.pos_of_ne_zero fun hfirst => ?_, by omega⟩
    subst hfirst
    cases hfound with
    | last hpos hlast => exact absurd (hlast.unique hk) (Nat.ne_of_gt hpos)
    | nothing => omega
  · intro hlast
    cases hfound with
    | @last k hpos hk =>
      obtain ⟨-, hbound⟩ := hlast k hk
      refine ⟨fun k' hk' => hk.unique hk' ▸ hsize, fun hzero => absurd (hzero k hk.lt) hk.ne_zero,
        _, compile_eq hsize, List.take_prefix _ _, fun i hi hne => ?_⟩
      have hik : i ≤ k := Nat.le_of_not_lt fun hki => hne (hk.zero i hki hi)
      have hkn := hk.lt
      rw [length_data, Nat.mod_eq_of_lt hbound]
      omega
    | nothing hrest =>
      have hzero : ∀ i < n, block.word i = 0 := by
        intro i hi
        by_contra hne
        rcases Nat.eq_zero_or_pos i with rfl | hpos
        · exact absurd (hlast 0 ⟨hi, hne, hrest⟩).1 (Nat.lt_irrefl 0)
        · exact hne (hrest i hpos hi)
      exact ⟨fun k hk => absurd (hzero k hk.lt) hk.ne_zero, fun _ => hsize, _, compile_eq hsize,
        List.take_prefix _ _, fun i hi hne => absurd (hzero i hi) hne⟩

/-- A call and a branch behind it, and the padding of the section -/
def callAndReturn : MemoryBlock :=
  ⟨0x10000, [0x00, 0xF0, 0x02, 0xF8, 0x70, 0x47, 0x00, 0x00, 0x00, 0x00, 0x00, 0x00], by decide, by decide, by decide⟩

theorem notTruncated_iff_callAndReturn : callAndReturn.NotTruncated 3 := by
  refine (notTruncated_iff callAndReturn 3 rfl).mpr fun k hk => ?_
  have hlt := hk.lt
  refine ⟨Nat.pos_of_ne_zero fun hfirst => ?_, by omega⟩
  subst hfirst
  exact absurd (hk.zero 1 (by decide) (by decide)) (by decide)

/-- `BX LR` alone -/
def bxLr : MemoryBlock := ⟨0x10000, [0x70, 0x47, 0x00, 0x00], by decide, by decide, by decide⟩

/-- The code of a section of one word is lost. -/
theorem bxLr_truncated : ¬ bxLr.NotTruncated 1 := by
  intro h
  have hlast : bxLr.IsLast 1 0 := ⟨by decide, by decide, fun i hi hi' => absurd hi' (by omega)⟩
  have hsize : bxLr.codeSize = .ok 0 := by
    rw [codeSize, codeSizeLoop, dif_neg (by decide)]
  cases hsize.symm.trans (h.last 0 hlast)

end MemoryBlock

end Avatar.Translator
