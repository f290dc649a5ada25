import Avatar.Lib.Traversal
import Avatar.Theorems.PageTable

/-! Which reads count as I/O. A read whose value is not the cached one has been answered by a device; the record of a
    page says which value that is, after any history of writes and of reads that carried a value. A read of zero is
    taken for one without a value. -/

namespace Avatar.MemoryRangeIdentifier
open Bytes StateExcept

/-! ### The cache -/

def decodeDatum (v : Int) : Option Byte := if v < 0 then none else some (BitVec.ofInt 8 v)

/-- The value that the pages hold for `n` bytes, if all of them have one. -/
def cached (pageSize : Nat) (pages : Pages) (address : Int) (n : Nat) : Option Nat :=
  ((List.range n).mapM fun i : Nat => decodeDatum (datum pageSize pages (address + i))).map ofLE

namespace Record
variable {r : Record} {address value : Int} {n : Nat}

def cached (r : Record) (address : Int) (n : Nat) : Option Nat :=
  ((List.range n).mapM fun i : Nat => r.data (address + i)).map ofLE

/-- All bytes are cached, with another value. -/
def Differs (r : Record) (address value : Int) (n : Nat) : Prop :=
  ∃ stored, r.cached address n = some stored ∧ (stored : Int) ≠ value

open Classical in
/-- What `_add_memory_read_access` does to the record -/
noncomputable def read (address value : Int) (n : Nat) (r : Record) : Record :=
  if value ≠ 0 ∧ r.Differs address value n then
    ((r.mark .read address n).mark .io address n).write address value n
  else r.mark .read address n

theorem read_of_differs (h : value ≠ 0 ∧ r.Differs address value n) : r.read address value n =
    ((r.mark .read address n).mark .io address n).write address value n := if_pos h

theorem read_of_not (h : ¬(value ≠ 0 ∧ r.Differs address value n)) :
    r.read address value n = r.mark .read address n := if_neg h

/-- A read counts its bytes as I/O once, if it does. -/
theorem counts_read_of_differs {a : Int} (h : value ≠ 0 ∧ r.Differs address value n) (ha : address ≤ a)
    (ha' : a < address + n) : (r.read address value n).counts .io a = r.counts .io a + 1 := by
  rw [read_of_differs h, counts_write, counts_mark, if_pos ⟨rfl, ha, ha'⟩, counts_mark, if_neg (by simp), Nat.add_zero]

theorem counts_read_of_not {a : Int} (h : ¬(value ≠ 0 ∧ r.Differs address value n)) :
    (r.read address value n).counts .io a = r.counts .io a := by
  rw [read_of_not h, counts_mark, if_neg (by simp), Nat.add_zero]

theorem cached_mark {kind : Mark} : (r.mark kind address n).cached address n = r.cached address n := by
  rw [cached, data_mark, cached]

theorem toNat_byteOf (v i : Nat) : (byteOf v i).toNat = v / 256 ^ i % 256 := by
  rw [byteOf, ← Int.natCast_shiftRight, BitVec.ofInt_natCast, BitVec.toNat_ofNat, Nat.shiftRight_eq_div_pow, pow_mul]
  rfl

/-- The bytes of a value make it up again. -/
theorem ofLE_byteOf (v n : Nat) : ofLE ((List.range n).map fun i => byteOf v i) = v % 256 ^ n := by
  induction n with
  | zero => rw [pow_zero, Nat.mod_one]; rfl
  | succ n ih =>
    have hlast : ofLE [byteOf v n] = v / 256 ^ n % 256 := (Nat.add_zero _).trans (toNat_byteOf v n)
    rw [List.range_succ, List.map_append, List.map_singleton, ofLE_append, ih, List.length_map, List.length_range, hlast,
      Nat.mod_pow_succ]

theorem cached_write {v : Nat} (h : v < 256 ^ n) : (r.write address v n).cached address n = some v := by
  have hbytes : (List.range n).mapM (fun i : Nat => (r.write address v n).data (address + i)) =
      some ((List.range n).map fun i => byteOf v i) := by
    rw [Traversal.mapM_eq_some_iff, List.forall₂_map_right_iff, List.forall₂_same]
    intro i hi
    have hi : i < n := List.mem_range.mp hi
    have hoffset : (address + i - address).toNat = i := by omega
    rw [data_write, if_pos (by omega), hoffset]
  rw [cached, hbytes, Option.map_some, ofLE_byteOf, Nat.mod_eq_of_lt h]

end Record

open Classical in
/-- What a read with a value should do: its bytes count as I/O exactly if they are cached with another value, and the
    cache then holds the value that was read. What is cached, the record says. -/
def Detects (pageSize : Nat) (pages : Pages) (r : Record) (address size value : Int) : Prop :=
  ∃ pages', addMemoryReadAccess pageSize address size (some value) pages = .ok () pages' ∧
    (∀ a, address ≤ a → a < address + size → count pageSize pages' .io a =
      count pageSize pages .io a + if r.Differs address value size.toNat then 1 else 0) ∧
    (r.Differs address value size.toNat → (cached pageSize pages' address size.toNat).map Int.ofNat = some value)

/-! ### One read -/

section Read
variable {pageSize : Nat} {pages : Pages} {r : Record} {address size value : Int}

theorem decodeDatum_encodeDatum (b : Option Byte) : decodeDatum (encodeDatum b) = b := by
  cases b with
  | none => rfl
  | some b =>
    have hnonneg : ¬(b.toNat : Int) < 0 := by omega
    rw [encodeDatum, decodeDatum, if_neg hnonneg, BitVec.ofInt_natCast, BitVec.ofNat_toNat, BitVec.setWidth_eq]

theorem Represents.cached_eq (h : Represents pageSize pages r) (address : Int) (n : Nat) :
    cached pageSize pages address n = r.cached address n := by
  simp only [cached, Record.cached, h.data, decodeDatum_encodeDatum]

theorem Represents.addMemoryReadAccess (hsize : 0 < pageSize) (h : Represents pageSize pages r)
    (hfits : Fits pageSize address size) (value : Int) :
    Returns (addMemoryReadAccess pageSize address size (some value)) pages
      fun _ pages' => Represents pageSize pages' (r.read address value size.toNat) := by
  refine (h.markData hsize hfits).bind ?_
  rintro _ pages h
  dsimp only
  by_cases hvalue : value = 0
  · rw [if_neg (not_not_intro hvalue), Record.read_of_not fun hread => hread.1 hvalue]
    exact Returns.pure h
  rw [if_pos hvalue]
  refine (h.readCachedData hsize hfits).bind ?_
  rintro stored pages ⟨hstored, h⟩
  rw [← Record.cached, Record.cached_mark] at hstored
  cases stored with
  | none =>
    have hnot : ¬r.Differs address value size.toNat := by
      rintro ⟨stored, heq, -⟩
      rw [← hstored] at heq
      cases heq
    rw [Record.read_of_not fun hread => hnot hread.2]
    exact Returns.pure h
  | some stored =>
    dsimp only
    by_cases heq : (stored : Int) = value
    · have hnot : ¬r.Differs address value size.toNat := by
        rintro ⟨stored', heq', hne⟩
        rw [← hstored, Option.some.injEq] at heq'
        exact hne (heq' ▸ heq)
      rw [if_neg (not_not_intro heq), Record.read_of_not fun hread => hnot hread.2]
      exact Returns.pure h
    · rw [if_pos heq, Record.read_of_differs ⟨hvalue, stored, hstored.symm, heq⟩]
      exact (h.markData hsize hfits).bind fun _ _ h => h.writeData hsize hfits value

/-- Exactly the reads of zero that should count are missed. -/
theorem Represents.detects_iff (hsize : 0 < pageSize) (h : Represents pageSize pages r)
    (hfits : Fits pageSize address size) {v : Nat} (hv : v < 256 ^ size.toNat) :
    Detects pageSize pages r address size v ↔ ¬(v = 0 ∧ r.Differs address v size.toNat) := by
  have hpos : 0 < size := by
    have := hfits.known
    omega
  have hcast : (size.toNat : Int) = size := Int.toNat_of_nonneg hfits.size_nonneg
  obtain ⟨_, pages', hrun, hpages'⟩ := h.addMemoryReadAccess hsize hfits (v : Int)
  constructor
  · rintro ⟨pages'', hrun', hcounts, -⟩ ⟨rfl, hdiffers⟩
    rw [hrun] at hrun'
    cases hrun'
    have hzero : ((0 : Nat) : Int) = 0 := rfl
    have hcount := hcounts address (Int.le_refl _) (by omega)
    rw [if_pos hdiffers, hpages'.counts, h.counts, Record.counts_read_of_not fun hread => hread.1 hzero] at hcount
    omega
  · intro hnot
    refine ⟨pages', hrun, fun a ha ha' => ?_, fun hdiffers => ?_⟩
    · rw [hpages'.counts, h.counts]
      split_ifs with hdiffers
      · have hne : (v : Int) ≠ 0 := fun h0 => hnot ⟨by exact_mod_cast h0, hdiffers⟩
        exact Record.counts_read_of_differs ⟨hne, hdiffers⟩ ha (by rwa [hcast])
      · exact Record.counts_read_of_not fun hread => hdiffers hread.2
    · have hne : (v : Int) ≠ 0 := fun h0 => hnot ⟨by exact_mod_cast h0, hdiffers⟩
      rw [hpages'.cached_eq, Record.read_of_differs ⟨hne, hdiffers⟩, Record.cached_write hv]
      rfl

end Read

/-! ### Histories -/

/-- A write, or a read with the value that was read -/
inductive ValueAccess where
  | write (cpsr address size : Int) (value : Nat)
  | read (cpsr address size : Int) (value : Nat)

namespace ValueAccess

def perform (pageSize : Nat) : ValueAccess → PluginM Unit
  | write _ address size value => addMemoryWriteAccess pageSize address size value
  | read _ address size value => addMemoryReadAccess pageSize address size (some value)

def address : ValueAccess → Int
  | write _ address _ _ | read _ address _ _ => address

def size : ValueAccess → Int
  | write _ _ size _ | read _ _ size _ => size

end ValueAccess

namespace Record

/-- What an access does to the record -/
noncomputable def perform (r : Record) : ValueAccess → Record
  | .write _ address size value => (r.mark .write address size.toNat).write address value size.toNat
  | .read _ address size value => r.read address value size.toNat

/-- The record of a history -/
noncomputable def after (history : List ValueAccess) : Record := history.foldl perform empty

theorem after_snoc (history : List ValueAccess) (access : ValueAccess) :
    after (history ++ [access]) = (after history).perform access := List.foldl_append

end Record

section History
variable {pageSize : Nat} {history : List ValueAccess}

/-- After any history the pages are the record of it. -/
theorem represents_values (hsize : 0 < pageSize) (h : ∀ access ∈ history, Fits pageSize access.address access.size) :
    Returns (history.forM (·.perform pageSize)) ∅ fun _ pages => Represents pageSize pages (.after history) := by
  refine Returns.forM (I := fun done pages => Represents pageSize pages (.after done)) ?_ represents_empty
  rintro done access pages hpre hr
  have hfits := h access (hpre.subset (List.mem_append_right _ (.head _)))
  rw [Record.after_snoc]
  cases access with
  | write cpsr address size value => exact (hr.markData hsize hfits).bind fun _ _ h => h.writeData hsize hfits value
  | read cpsr address size value => exact hr.addMemoryReadAccess hsize hfits value

/-- Any history of writes and reads returns, the pages are the record of it, and the next read counts as it should unless
    it reads zero where another value is cached. -/
theorem io_detected_iff (hsize : 0 < pageSize) (h : ∀ access ∈ history, Fits pageSize access.address access.size) :
    ∃ pages, history.forM (·.perform pageSize) ∅ = .ok () pages ∧ Represents pageSize pages (.after history) ∧
      ∀ (address size : Int) (value : Nat), Fits pageSize address size → value < 2 ^ (8 * size.toNat) →
        (Detects pageSize pages (.after history) address size value ↔
          ¬(value = 0 ∧ (Record.after history).Differs address value size.toNat)) := by
  obtain ⟨_, pages, hrun, hr⟩ := represents_values hsize h
  refine ⟨pages, hrun, hr, fun address size value hfits hvalue => hr.detects_iff hsize hfits ?_⟩
  rwa [pow_mul] at hvalue

end History

/-- A status register that is set, before the device changes it -/
def setStatus : List ValueAccess := [.write 0 0x40 4 1]

theorem fits_setStatus : ∀ access ∈ setStatus, Fits 512 access.address access.size := by
  intro access h
  rw [List.mem_singleton.mp h]
  exact ⟨by decide, by decide, by decide, by decide⟩

theorem fits_status : Fits 512 0x40 4 := ⟨by decide, by decide, by decide, by decide⟩

theorem cached_status : (Record.after setStatus).cached 0x40 4 = some 1 := Record.cached_write (by decide)

/-- The next read finds 2 in the register, and counts. -/
theorem io_detected_iff_status : ∃ pages, setStatus.forM (·.perform 512) ∅ = .ok () pages ∧
    Represents 512 pages (.after setStatus) ∧ (Record.after setStatus).Differs 0x40 (2 : Nat) 4 ∧
    Detects 512 pages (.after setStatus) 0x40 4 (2 : Nat) := by
  obtain ⟨pages, hrun, hpages, hdetects⟩ := io_detected_iff (by decide) fits_setStatus
  refine ⟨pages, hrun, hpages, ⟨1, cached_status, by decide⟩, ?_⟩
  exact (hdetects 0x40 4 2 fits_status (by decide)).mpr fun h => absurd h.1 (by decide)

theorem cleared_status_not_detected : ∃ pages, setStatus.forM (·.perform 512) ∅ = .ok () pages ∧
    ¬Detects 512 pages (.after setStatus) 0x40 4 (0 : Nat) := by
  obtain ⟨_, pages, hrun, hpages⟩ := represents_values (by decide) fits_setStatus
  refine ⟨pages, hrun, fun hdetects => ?_⟩
  exact (hpages.detects_iff (by decide) fits_status (by decide)).mp hdetects ⟨rfl, 1, cached_status, by decide⟩

end Avatar.MemoryRangeIdentifier
