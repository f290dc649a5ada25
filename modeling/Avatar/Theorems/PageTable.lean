import Mathlib.Data.List.Induction
import Avatar.Lib.StateExcept
import Avatar.Plugins.MemoryRangeIdentifier

/-! The pages of the memory identifier are a record of what was done to each address: how often it was accessed in each
    way, and the byte that was last written to it. Each update of a page is an update of that record at one address. -/

namespace Avatar.MemoryRangeIdentifier
open Bytes StateExcept

/-! ### The record -/

structure Record where
  counts : Mark → Int → Nat
  data : Int → Option Byte

namespace Record

def empty : Record where
  counts _ _ := 0
  data _ := none

def increment (mark : Mark) (a : Int) (r : Record) : Record :=
  { r with counts := fun k x => if k = mark ∧ x = a then r.counts k x + 1 else r.counts k x }

def store (a : Int) (b : Byte) (r : Record) : Record := { r with data := Function.update r.data a (some b) }

/-- Count an access to the `n` addresses from `address` on. -/
def mark (kind : Mark) (address : Int) : Nat → Record → Record
  | 0, r => r
  | n + 1, r => (r.mark kind address n).increment kind (address + n)

/-- The byte `i` of a value. -/
def byteOf (value : Int) (i : Nat) : Byte := BitVec.ofInt 8 (value >>> (8 * i))

/-- Store the lower `n` bytes of a value, the lowest first. -/
def write (address value : Int) : Nat → Record → Record
  | 0, r => r
  | n + 1, r => (r.write address value n).store (address + n) (byteOf value n)

variable {r : Record} {kind kind' : Mark} {address a value : Int} {n : Nat}

theorem counts_increment : (r.increment kind address).counts kind' a =
    if kind' = kind ∧ a = address then r.counts kind' a + 1 else r.counts kind' a := rfl

theorem data_store_self {b : Byte} : (r.store a b).data a = some b := Function.update_self ..

theorem data_store_of_ne {b : Byte} (h : a ≠ address) : (r.store address b).data a = r.data a :=
  Function.update_of_ne h ..

theorem counts_mark : (r.mark kind address n).counts kind' a =
    r.counts kind' a + if kind' = kind ∧ address ≤ a ∧ a < address + n then 1 else 0 := by
  induction n with
  | zero =>
    rw [if_neg (by omega)]
    rfl
  | succ n ih =>
    rw [mark, counts_increment, ih]
    by_cases hkind : kind' = kind
    · by_cases ha : a = address + n
      · rw [if_pos ⟨hkind, ha⟩, if_neg (by omega), if_pos ⟨hkind, by omega⟩]
      · rw [if_neg fun h => ha h.2]
        congr 2
        simp only [eq_iff_iff, hkind, true_and]
        omega
    · rw [if_neg fun h => hkind h.1, if_neg fun h => hkind h.1, if_neg fun h => hkind h.1]

theorem data_mark : (r.mark kind address n).data = r.data := by
  induction n with
  | zero => rfl
  | succ n ih => exact ih

theorem counts_write : (r.write address value n).counts = r.counts := by
  induction n with
  | zero => rfl
  | succ n ih => exact ih

theorem data_write : (r.write address value n).data a =
    if address ≤ a ∧ a < address + n then some (byteOf value (a - address).toNat) else r.data a := by
  induction n with
  | zero =>
    rw [if_neg (by omega)]
    rfl
  | succ n ih =>
    rw [write]
    by_cases ha : a = address + n
    · have hn : (a - address).toNat = n := by omega
      rw [if_pos (by omega), hn, ha, data_store_self]
    · rw [data_store_of_ne ha, ih]
      congr 1
      simp only [eq_iff_iff]
      omega

end Record

/-! ### Pages as a record -/

section Pages
variable {pageSize : Nat} {pages : Pages} {page : Page} {r : Record} {address a key : Int} {kind : Mark}

/-- The address of the page that an address belongs to. -/
def pageAddress (pageSize : Nat) (address : Int) : Int := address / pageSize * pageSize

/-- How often an address was accessed; never if its page is absent. -/
def count (pageSize : Nat) (pages : Pages) (kind : Mark) (a : Int) : Nat :=
  match pages.lookup (pageAddress pageSize a) with
  | none => 0
  | some page => (page.counts kind).getD (offset pageSize a) 0

/-- The byte that was last written to an address, or -1. -/
def datum (pageSize : Nat) (pages : Pages) (a : Int) : Int :=
  match pages.lookup (pageAddress pageSize a) with
  | none => -1
  | some page => page.data.getD (offset pageSize a) (-1)

structure Page.WellFormed (pageSize : Nat) (page : Page) : Prop where
  counts : ∀ kind, (page.counts kind).length = pageSize
  data : page.data.length = pageSize

/-- The pages have multiples of the page size as keys, and lists of that length. -/
def WellFormed (pageSize : Nat) (pages : Pages) : Prop :=
  ∀ key page, pages.lookup key = some page → (pageSize : Int) ∣ key ∧ page.WellFormed pageSize

/-- The number that stands for a byte in a page. -/
def encodeDatum : Option Byte → Int
  | none => -1
  | some b => b.toNat

/-- The pages hold the record. -/
structure Represents (pageSize : Nat) (pages : Pages) (r : Record) : Prop where
  wellFormed : WellFormed pageSize pages
  counts : ∀ kind a, count pageSize pages kind a = r.counts kind a
  data : ∀ a, datum pageSize pages a = encodeDatum (r.data a)

/-! #### Addresses -/

/-- Up to 53 bits, the division as a float does not round up to the next integer. -/
theorem pageNumber_eq (hsize : 0 < pageSize) (h : 0 ≤ address) (hlt : address < 2 ^ 53) :
    pageNumber pageSize address = .ok (address / pageSize) := by
  obtain ⟨n, rfl⟩ := Int.eq_ofNat_of_zero_le h
  have hn : n < 2 ^ 53 := by exact_mod_cast hlt
  have hquotient : FloatDivision.floatDiv 53 n pageSize = n / pageSize := FloatDivision.floatDiv_of_lt hsize hn
  have hbound : n / pageSize < 2 ^ 1024 :=
    hquotient ▸ FloatDivision.floatDiv_lt hsize hn (show 53 ≤ 1024 by decide)
  have hsign : Int.sign n * ((n / pageSize : Nat) : Int) = n / pageSize := by
    rcases Nat.eq_zero_or_pos n with rfl | hpos
    · simp
    · rw [Int.sign_natCast_of_ne_zero hpos.ne', Int.one_mul, Int.natCast_ediv]
  rw [pageNumber, if_neg hsize.ne', Int.natAbs_natCast, hquotient]
  dsimp only
  rw [if_pos hbound, hsign]

theorem offset_lt (address : Int) (hsize : 0 < pageSize) : offset pageSize address < pageSize := by
  have h := Int.emod_lt_of_pos address (Int.natCast_pos.mpr hsize)
  have h' := Int.emod_nonneg address (Int.natCast_pos.mpr hsize).ne'
  rw [offset]
  omega

theorem pageAddress_add_offset (address : Int) (hsize : 0 < pageSize) :
    pageAddress pageSize address + offset pageSize address = address := by
  rw [pageAddress, offset, Int.toNat_of_nonneg (Int.emod_nonneg _ (Int.natCast_pos.mpr hsize).ne')]
  exact Int.ediv_mul_add_emod address pageSize

/-- The addresses up to the last of an access in one page are all in that page. -/
theorem pageAddress_add {size : Int} (hsize : 0 < pageSize)
    (h : address / pageSize = (address + size - 1) / pageSize) {i : Nat} (hi : i < size) :
    pageAddress pageSize (address + i) = pageAddress pageSize address := by
  have hpos : (0 : Int) < pageSize := Int.natCast_pos.mpr hsize
  have hle : address / pageSize ≤ (address + i) / pageSize := Int.ediv_le_ediv hpos (by omega)
  have hge : (address + i) / pageSize ≤ (address + size - 1) / pageSize := Int.ediv_le_ediv hpos (by omega)
  rw [pageAddress, pageAddress]
  congr 1
  omega

theorem offset_add (hsize : 0 < pageSize) {i : Nat}
    (h : pageAddress pageSize (address + i) = pageAddress pageSize address) :
    offset pageSize (address + i) = offset pageSize address + i := by
  have hsum := pageAddress_add_offset (address + i) hsize
  have hsum' := pageAddress_add_offset address hsize
  omega

/-! #### Updates -/

theorem count_insert : count pageSize (pages.insert key page) kind a =
    if pageAddress pageSize a = key then (page.counts kind).getD (offset pageSize a) 0 else count pageSize pages kind a := by
  rw [count]
  split_ifs with h
  · rw [h, AList.lookup_insert]
  · rw [AList.lookup_insert_ne h]
    rfl

theorem datum_insert : datum pageSize (pages.insert key page) a =
    if pageAddress pageSize a = key then page.data.getD (offset pageSize a) (-1) else datum pageSize pages a := by
  rw [datum]
  split_ifs with h
  · rw [h, AList.lookup_insert]
  · rw [AList.lookup_insert_ne h]
    rfl

theorem WellFormed.insert (h : WellFormed pageSize pages) (hkey : (pageSize : Int) ∣ key)
    (hpage : page.WellFormed pageSize) : WellFormed pageSize (pages.insert key page) := by
  intro key' page' hlookup
  by_cases hk : key' = key
  · subst hk
    rw [AList.lookup_insert] at hlookup
    cases hlookup
    exact ⟨hkey, hpage⟩
  · rw [AList.lookup_insert_ne hk] at hlookup
    exact h key' page' hlookup

/-! #### Operations on one byte -/

theorem update_ok {α : Type} {l : List α} {f : α → α} {i : Nat} (h : i < l.length) :
    update l i f = .ok (l.set i (f l[i])) := by
  rw [update, item, List.getElem?_eq_getElem h]
  rfl

theorem Page.increment_ok (kind : Mark) (h : page.WellFormed pageSize) {i : Nat} (hi : i < pageSize) :
    ∃ page', page.increment kind i = .ok page' ∧ page'.WellFormed pageSize ∧ page'.data = page.data ∧
      ∀ kind' j, (page'.counts kind').getD j 0 =
        if kind' = kind ∧ j = i then (page.counts kind').getD j 0 + 1 else (page.counts kind').getD j 0 := by
  have hlength : i < (page.counts kind).length := h.counts kind ▸ hi
  refine ⟨{ page with counts := Function.update page.counts kind ((page.counts kind).set i _) },
    by rw [increment, update_ok hlength]; rfl, ⟨fun kind' => ?_, h.data⟩, rfl, fun kind' j => ?_⟩
  · by_cases hkind : kind' = kind
    · subst hkind
      simp [h.counts]
    · simp [hkind, h.counts]
  · by_cases hkind : kind' = kind
    · subst hkind
      dsimp only
      rw [Function.update_self, List.getD_eq_getElem?_getD, List.getD_eq_getElem?_getD, List.getElem?_set]
      by_cases hj : i = j
      · subst hj
        simp [hlength]
      · simp [hj, Ne.symm hj]
    · simp [hkind]

theorem Page.setData_ok (h : page.WellFormed pageSize) {i : Nat} (hi : i < pageSize) (value : Int) :
    ∃ page', page.setData i value = .ok page' ∧ page'.WellFormed pageSize ∧ page'.counts = page.counts ∧
      ∀ j, page'.data.getD j (-1) = if j = i then value else page.data.getD j (-1) := by
  have hlength : i < page.data.length := h.data ▸ hi
  refine ⟨{ page with data := page.data.set i value }, by rw [setData, update_ok hlength]; rfl, ⟨h.counts, ?_⟩, rfl,
    fun j => ?_⟩
  · rw [List.length_set, h.data]
  · rw [List.getD_eq_getElem?_getD, List.getD_eq_getElem?_getD, List.getElem?_set]
    by_cases hj : i = j
    · subst hj
      simp [hlength]
    · simp [hj, Ne.symm hj]

theorem eq_iff_page_offset (hsize : 0 < pageSize) : a = address ↔
    pageAddress pageSize a = pageAddress pageSize address ∧ offset pageSize a = offset pageSize address := by
  constructor
  · rintro rfl
    exact ⟨rfl, rfl⟩
  · rintro ⟨hpage, hoffset⟩
    rw [← pageAddress_add_offset a hsize, hpage, hoffset, pageAddress_add_offset address hsize]

theorem modifyPage_ok {f : Page → Except PyException Page} {page' : Page} (h : pages.lookup key = some page)
    (hf : f page = .ok page') : modifyPage key f pages = .ok () (pages.insert key page') := by
  rw [modifyPage, h]
  dsimp only
  rw [hf]

/-- Counting an access to an address in its page is counting it in the record. -/
theorem Represents.increment (kind : Mark) (hsize : 0 < pageSize) (h : Represents pageSize pages r)
    (hpage : pageAddress pageSize a ∈ pages) :
    Returns (modifyPage (pageAddress pageSize a) (Page.increment kind (offset pageSize a))) pages
      fun _ pages' => pageAddress pageSize a ∈ pages' ∧ Represents pageSize pages' (r.increment kind a) := by
  obtain ⟨page, hlookup⟩ := Option.isSome_iff_exists.mp (AList.lookup_isSome.mpr hpage)
  obtain ⟨hdvd, hwf⟩ := h.wellFormed _ _ hlookup
  obtain ⟨page', hok, hwf', hdata, hcounts⟩ := Page.increment_ok kind hwf (offset_lt a hsize)
  refine ⟨(), _, modifyPage_ok hlookup hok, (AList.mem_insert _).mpr (.inl rfl),
    h.wellFormed.insert hdvd hwf', fun kind' x => ?_, fun x => ?_⟩
  · have hold := h.counts kind' x
    rw [count] at hold
    simp only [count_insert, Record.counts_increment, eq_iff_page_offset hsize (a := x), hcounts]
    by_cases hx : pageAddress pageSize x = pageAddress pageSize a
    · rw [hx, hlookup] at hold
      dsimp only at hold
      rw [if_pos hx, hold]
      simp only [hx, true_and]
    · rw [if_neg hx, if_neg fun h => hx h.2.1, ← h.counts]
  · have hold := h.data x
    rw [datum] at hold
    rw [datum_insert, hdata]
    split_ifs with hx
    · rw [hx, hlookup] at hold
      exact hold
    · exact h.data x

/-- Storing a byte in the page of its address is storing it in the record. -/
theorem Represents.setData (hsize : 0 < pageSize) (h : Represents pageSize pages r)
    (hpage : pageAddress pageSize a ∈ pages) {b : Byte} {value : Int} (hvalue : value = b.toNat) :
    Returns (modifyPage (pageAddress pageSize a) (Page.setData (offset pageSize a) value)) pages
      fun _ pages' => pageAddress pageSize a ∈ pages' ∧ Represents pageSize pages' (r.store a b) := by
  obtain ⟨page, hlookup⟩ := Option.isSome_iff_exists.mp (AList.lookup_isSome.mpr hpage)
  obtain ⟨hdvd, hwf⟩ := h.wellFormed _ _ hlookup
  obtain ⟨page', hok, hwf', hcounts, hdata⟩ := Page.setData_ok hwf (offset_lt a hsize) value
  refine ⟨(), _, modifyPage_ok hlookup hok, (AList.mem_insert _).mpr (.inl rfl),
    h.wellFormed.insert hdvd hwf', fun kind' x => ?_, fun x => ?_⟩
  · have hold := h.counts kind' x
    rw [count] at hold
    rw [count_insert, hcounts]
    split_ifs with hx
    · rw [hx, hlookup] at hold
      exact hold
    · exact h.counts kind' x
  · have hold := h.data x
    rw [datum] at hold
    rw [datum_insert, hdata]
    by_cases hx : x = a
    · subst hx
      rw [if_pos rfl, if_pos rfl, Record.data_store_self, hvalue]
      rfl
    · rw [Record.data_store_of_ne hx]
      split_ifs with hpage' hoffset
      · exact absurd ((eq_iff_page_offset hsize).mpr ⟨hpage', hoffset⟩) hx
      · rw [hpage', hlookup] at hold
        exact hold
      · exact h.data x

/-! #### Operations on an access -/

theorem represents_empty : Represents pageSize ∅ Record.empty := by
  refine ⟨fun key page h => ?_, fun kind a => ?_, fun a => ?_⟩
  · rw [AList.lookup_empty] at h
    cases h
  · rw [count, AList.lookup_empty]
    rfl
  · rw [datum, AList.lookup_empty]
    rfl

theorem Page.wellFormed_new : (Page.new pageSize).WellFormed pageSize :=
  ⟨fun _ => List.length_replicate, List.length_replicate⟩

/-- An access to 32-bit addresses, of a size that the plugin knows, in one page. -/
structure Fits (pageSize : Nat) (address size : Int) : Prop where
  nonneg : 0 ≤ address
  lt : address < 2 ^ 32
  known : size = 1 ∨ size = 2 ∨ size = 4 ∨ size = 8
  page : address / pageSize = (address + size - 1) / pageSize

section Access
variable {size : Int}

theorem Fits.pageNumber_eq (hsize : 0 < pageSize) (h : Fits pageSize address size) :
    pageNumber pageSize address = .ok (address / pageSize) :=
  MemoryRangeIdentifier.pageNumber_eq hsize h.nonneg (Int.lt_trans h.lt (by decide))

theorem assertAccess_eq (hknown : size = 1 ∨ size = 2 ∨ size = 4 ∨ size = 8) {first last : Int}
    (hfirst : pageNumber pageSize address = .ok first) (hlast : pageNumber pageSize (address + size - 1) = .ok last)
    (pages : Pages) : assertAccess pageSize address size pages =
      if first = last then .ok () pages else .error .assertionError pages := by
  have hassert : assert (size = 1 ∨ size = 2 ∨ size = 4 ∨ size = 8) pages = .ok () pages := by
    rw [assert, if_pos hknown]
    rfl
  rw [assertAccess, bind_ok hassert, bind_ok (lift_ok hfirst _), bind_ok (lift_ok hlast _), assert]
  split_ifs <;> rfl

theorem Fits.assertAccess_ok (hsize : 0 < pageSize) (h : Fits pageSize address size) :
    assertAccess pageSize address size pages = .ok () pages := by
  have hlast : pageNumber pageSize (address + size - 1) = .ok (address / pageSize) := by
    have := h.nonneg
    have := h.lt
    have := h.known
    rw [h.page, MemoryRangeIdentifier.pageNumber_eq hsize (by omega) (by omega)]
  rw [assertAccess_eq h.known (h.pageNumber_eq hsize) hlast, if_pos rfl]

/-- A new page holds nothing. -/
theorem Represents.insert_new (h : Represents pageSize pages r) (hkey : key ∉ pages) (hdvd : (pageSize : Int) ∣ key) :
    Represents pageSize (pages.insert key (Page.new pageSize)) r := by
  have hlookup : pages.lookup key = none := AList.lookup_eq_none.mpr hkey
  refine ⟨h.wellFormed.insert hdvd Page.wellFormed_new, fun kind a => ?_, fun a => ?_⟩
  · rw [count_insert, ← h.counts]
    split_ifs with ha
    · rw [count, ha, hlookup]
      simp [Page.new]
    · rfl
  · rw [datum_insert, ← h.data]
    split_ifs with ha
    · rw [datum, ha, hlookup]
      simp [Page.new]
    · rfl

theorem getPage_eq {number : Int} (h : pageNumber pageSize address = .ok number) (pages : Pages) :
    getPage pageSize address pages = .ok (number * pageSize) (if number * pageSize ∈ pages then pages else
      pages.insert (number * pageSize) (Page.new pageSize)) := by
  have hget : (get : PluginM Pages) pages = .ok pages pages := rfl
  rw [getPage, bind_ok (lift_ok h _)]
  dsimp only
  rw [bind_ok hget]
  by_cases hpage : number * pageSize ∈ pages
  · rw [if_neg (not_not_intro hpage), if_pos hpage]
    rfl
  · rw [if_pos hpage, if_neg hpage]
    rfl

theorem Represents.getPage (h : Represents pageSize pages r)
    (hnumber : pageNumber pageSize address = .ok (address / pageSize)) :
    Returns (getPage pageSize address) pages fun key pages' =>
      key = pageAddress pageSize address ∧ key ∈ pages' ∧ Represents pageSize pages' r := by
  refine ⟨pageAddress pageSize address, _, getPage_eq hnumber pages, rfl, ?_⟩
  rw [← pageAddress]
  split_ifs with hpage
  · exact ⟨hpage, h⟩
  · exact ⟨(AList.mem_insert _).mpr (.inl rfl), h.insert_new hpage (Int.dvd_mul_left ..)⟩

theorem Fits.pageAddress_add (h : Fits pageSize address size) (hsize : 0 < pageSize) {i : Nat} (hi : i < size.toNat) :
    pageAddress pageSize (address + i) = pageAddress pageSize address :=
  MemoryRangeIdentifier.pageAddress_add hsize h.page (by omega)

theorem Represents.markData (hsize : 0 < pageSize) (h : Represents pageSize pages r)
    (hfits : Fits pageSize address size) : Returns (markData pageSize address size kind) pages
      fun _ pages' => Represents pageSize pages' (r.mark kind address size.toNat) := by
  rw [MemoryRangeIdentifier.markData, Returns, bind_ok (hfits.assertAccess_ok hsize)]
  refine (h.getPage (hfits.pageNumber_eq hsize)).bind ?_
  rintro _ pages ⟨rfl, hpage, h⟩
  refine (Returns.forM_range (I := fun i pages' => pageAddress pageSize address ∈ pages' ∧
    Represents pageSize pages' (r.mark kind address i)) ?_ ⟨hpage, h⟩).mono fun _ _ h => h.2
  rintro i hi pages ⟨hpage, h⟩
  have haddress := hfits.pageAddress_add hsize hi
  have hstep := h.increment kind hsize (a := address + i) (haddress ▸ hpage)
  rw [offset_add hsize haddress, haddress] at hstep
  exact hstep

theorem Represents.writeData (hsize : 0 < pageSize) (h : Represents pageSize pages r)
    (hfits : Fits pageSize address size) (value : Int) : Returns (writeData pageSize address size value) pages
      fun _ pages' => Represents pageSize pages' (r.write address value size.toNat) := by
  rw [MemoryRangeIdentifier.writeData, Returns, bind_ok (hfits.assertAccess_ok hsize)]
  refine (h.getPage (hfits.pageNumber_eq hsize)).bind ?_
  rintro _ pages ⟨rfl, hpage, h⟩
  refine (Returns.forM_range (I := fun i pages' => pageAddress pageSize address ∈ pages' ∧
    Represents pageSize pages' (r.write address value i)) ?_ ⟨hpage, h⟩).mono fun _ _ h => h.2
  rintro i hi pages ⟨hpage, h⟩
  have haddress := hfits.pageAddress_add hsize hi
  have hbyte : (value >>> (8 * i)) % 256 = (Record.byteOf value i).toNat := by
    rw [Record.byteOf, BitVec.toNat_ofInt]
    omega
  have hstep := h.setData hsize (a := address + i) (haddress ▸ hpage) hbyte
  rw [offset_add hsize haddress, haddress] at hstep
  exact hstep

/-- The loop that puts a value together, from the byte `k` on -/
theorem cachedValue_eq {data : List Int} {o : Nat} {b : Nat → Option Byte} {n k value : Nat}
    (hdata : ∀ i, k ≤ i → i < k + n → item data (o + i) = .ok (encodeDatum (b i))) (hvalue : value < 2 ^ (8 * k)) :
    cachedValue data o value (List.range' k n) =
      .ok (((List.range' k n).mapM b).map fun bs => value + 2 ^ (8 * k) * ofLE bs) := by
  induction n generalizing k value with
  | zero => simp [cachedValue, ofLE]
  | succ n ih =>
    have hitem := hdata k (Nat.le_refl k) (by omega)
    rw [List.range'_succ, cachedValue, hitem, List.mapM_cons]
    cases hbyte : b k with
    | none => rfl
    | some byte =>
      have hor : value ||| byte.toNat <<< (8 * k) = value + 2 ^ (8 * k) * byte.toNat :=
        or_shiftLeft hvalue _
      have hlt : value + 2 ^ (8 * k) * byte.toNat < 2 ^ (8 * (k + 1)) := by
        have hbyte : byte.toNat + 1 ≤ 2 ^ 8 := byte.isLt
        calc value + 2 ^ (8 * k) * byte.toNat < 2 ^ (8 * k) * (byte.toNat + 1) := by rw [Nat.mul_add_one]; omega
          _ ≤ 2 ^ (8 * k) * 2 ^ 8 := Nat.mul_le_mul_left _ hbyte
          _ = 2 ^ (8 * (k + 1)) := by rw [← pow_add]; rfl
      have hrest := ih (fun i hi hi' => hdata i (by omega) (by omega)) hlt
      show (if (byte.toNat : Int) < 0 then Except.ok none else
        cachedValue data o (value ||| (byte.toNat : Int).toNat <<< (8 * k)) (List.range' (k + 1) n)) = _
      rw [if_neg (by omega), Int.toNat_natCast, hor, hrest]
      cases (List.range' (k + 1) n).mapM b with
      | none => rfl
      | some bs =>
        have hsum : value + 2 ^ (8 * k) * byte.toNat + 2 ^ (8 * (k + 1)) * ofLE bs =
            value + 2 ^ (8 * k) * ofLE (byte :: bs) := by
          rw [ofLE, Nat.mul_add_one, pow_add]
          ring
        exact congrArg (fun v => Except.ok (some v)) hsum

theorem Represents.item_data (hsize : 0 < pageSize) (h : Represents pageSize pages r)
    (hlookup : pages.lookup (pageAddress pageSize a) = some page) :
    item page.data (offset pageSize a) = .ok (encodeDatum (r.data a)) := by
  have hlength : offset pageSize a < page.data.length := by
    rw [(h.wellFormed _ _ hlookup).2.data]
    exact offset_lt a hsize
  have hdatum := h.data a
  rw [datum, hlookup] at hdatum
  rw [item, List.getElem?_eq_getElem hlength, ← hdatum]
  simp [hlength]

/-- The record answers what was last written. -/
theorem Represents.readCachedData (hsize : 0 < pageSize) (h : Represents pageSize pages r)
    (hfits : Fits pageSize address size) : Returns (readCachedData pageSize address size) pages fun value pages' =>
      value = ((List.range size.toNat).mapM fun i : Nat => r.data (address + i)).map ofLE ∧ Represents pageSize pages' r := by
  rw [MemoryRangeIdentifier.readCachedData, Returns, bind_ok (hfits.assertAccess_ok hsize)]
  refine (h.getPage (hfits.pageNumber_eq hsize)).bind ?_
  rintro _ pages ⟨rfl, hpage, h⟩
  obtain ⟨page, hlookup⟩ := Option.isSome_iff_exists.mp (AList.lookup_isSome.mpr hpage)
  have hget : (get : PluginM Pages) pages = .ok pages pages := rfl
  have hvalue : cachedValue page.data (offset pageSize address) 0 (List.range size.toNat) =
      .ok (((List.range size.toNat).mapM fun i : Nat => r.data (address + i)).map ofLE) := by
    rw [List.range_eq_range', cachedValue_eq (b := fun i => r.data (address + i)) ?_ (by decide)]
    · simp
    · intro i _ hi
      have haddress := hfits.pageAddress_add hsize (i := i) (by omega)
      rw [← offset_add hsize haddress]
      exact h.item_data hsize (haddress ▸ hlookup)
  refine ⟨_, pages, ?_, rfl, h⟩
  rw [bind_ok hget, hlookup]
  dsimp only
  rw [hvalue]
  rfl

end Access

end Pages

/-! ### Histories -/

/-- A call of one of the methods that record an access. -/
inductive Access where
  | write (cpsr address size value : Int)
  | read (cpsr address size : Int)
  | stackPointer (sp cpsr : Int)
  | programCounter (pc cpsr : Int)
deriving DecidableEq

namespace Access

def perform (pageSize : Nat) : Access → PluginM Unit
  | write _ address size value => addMemoryWriteAccess pageSize address size value
  | read _ address size => addMemoryReadAccess pageSize address size none
  | stackPointer sp _ => addStackPointerValue pageSize sp
  | programCounter pc cpsr => addProgramCounterValue pageSize pc cpsr

def kind : Access → Mark
  | write .. => .write
  | read .. => .read
  | stackPointer .. => .stack
  | programCounter .. => .execute

def address : Access → Int
  | write _ address _ _ => address
  | read _ address _ => address
  | stackPointer sp _ => sp
  | programCounter pc _ => pc

/-- The number of addresses that are accessed; bit 5 of the state register tells the instruction set. -/
def size : Access → Int
  | write _ _ size _ => size
  | read _ _ size => size
  | stackPointer .. => 4
  | programCounter _ cpsr => if cpsr.testBit 5 then 2 else 4

def Covers (access : Access) (a : Int) : Prop := access.address ≤ a ∧ a < access.address + access.size

instance (access : Access) (a : Int) : Decidable (access.Covers a) := inferInstanceAs (Decidable (_ ∧ _))

/-- The byte that an access leaves at an address, if it writes there. -/
def written (access : Access) (a : Int) : Option Byte :=
  match access with
  | write _ address _ value => if access.Covers a then some (Record.byteOf value (a - address).toNat) else none
  | _ => none

def record : Access → Record → Record
  | write _ address size value, r => (r.mark .write address size.toNat).write address value size.toNat
  | access, r => r.mark access.kind access.address access.size.toNat

end Access

/-- How many calls of a kind cover an address. -/
def timesCovered (history : List Access) (kind : Mark) (a : Int) : Nat :=
  history.countP fun access => access.kind = kind ∧ access.Covers a

/-- The byte last written to an address -/
def lastWritten (history : List Access) (a : Int) : Option Byte := history.reverse.findSome? (·.written a)

section History
variable {pageSize : Nat} {pages : Pages} {r : Record} {access : Access} {history : List Access} {kind : Mark} {a : Int}

theorem Represents.perform (hsize : 0 < pageSize) (h : Represents pageSize pages r)
    (hfits : Fits pageSize access.address access.size) :
    Returns (access.perform pageSize) pages fun _ pages' => Represents pageSize pages' (access.record r) := by
  cases access with
  | write cpsr address size value =>
    exact (h.markData hsize hfits).bind fun _ _ h => h.writeData hsize hfits value
  | read cpsr address size => exact (h.markData hsize hfits).bind fun _ _ h => Returns.pure h
  | stackPointer sp cpsr => exact h.markData hsize hfits
  | programCounter pc cpsr => exact h.markData hsize hfits

theorem counts_record (hsize : 0 ≤ access.size) : (access.record r).counts kind a =
    r.counts kind a + if access.kind = kind ∧ access.Covers a then 1 else 0 := by
  have hmark : (r.mark access.kind access.address access.size.toNat).counts kind a =
      r.counts kind a + if access.kind = kind ∧ access.Covers a then 1 else 0 := by
    rw [Record.counts_mark, Int.toNat_of_nonneg hsize]
    congr 2
    exact propext (and_congr_left' eq_comm)
  cases access with
  | write cpsr address size value =>
    rw [Access.record, Record.counts_write]
    exact hmark
  | read => exact hmark
  | stackPointer => exact hmark
  | programCounter => exact hmark

theorem data_record (hsize : 0 ≤ access.size) : (access.record r).data a = (access.written a).or (r.data a) := by
  cases access with
  | write cpsr address size value =>
    have hcovers : (address ≤ a ∧ a < address + size.toNat) = (Access.write cpsr address size value).Covers a := by
      have hcast : (size.toNat : Int) = size := Int.toNat_of_nonneg hsize
      rw [hcast]
      rfl
    rw [Access.record, Record.data_write, Record.data_mark, Access.written]
    simp only [hcovers]
    split_ifs with h
    · rfl
    · rfl
  | read => exact congrFun Record.data_mark a
  | stackPointer => exact congrFun Record.data_mark a
  | programCounter => exact congrFun Record.data_mark a

/-- What a history leaves in the record -/
def recordOf (history : List Access) : Record := history.foldl (fun r access => access.record r) Record.empty

theorem recordOf_append (history : List Access) (access : Access) :
    recordOf (history ++ [access]) = access.record (recordOf history) := List.foldl_concat ..

theorem counts_recordOf (h : ∀ access ∈ history, 0 ≤ access.size) :
    (recordOf history).counts kind a = timesCovered history kind a := by
  induction history using List.reverseRecOn with
  | nil => rfl
  | append_singleton history access ih =>
    have hlast := h access (List.mem_append_right _ (.head _))
    rw [recordOf_append, counts_record hlast, ih fun access' h' => h access' (List.mem_append_left _ h'), timesCovered,
      timesCovered, List.countP_append, List.countP_singleton]
    simp only [decide_eq_true_eq]

theorem data_recordOf (h : ∀ access ∈ history, 0 ≤ access.size) :
    (recordOf history).data a = lastWritten history a := by
  induction history using List.reverseRecOn with
  | nil => rfl
  | append_singleton history access ih =>
    have hlast := h access (List.mem_append_right _ (.head _))
    rw [recordOf_append, data_record hlast, ih fun access' h' => h access' (List.mem_append_left _ h'), lastWritten,
      lastWritten, List.reverse_append, List.reverse_singleton, List.singleton_append, List.findSome?_cons]
    cases access.written a with
    | none => rfl
    | some b => rfl

theorem Fits.size_nonneg {address size : Int} (h : Fits pageSize address size) : 0 ≤ size := by
  have := h.known
  omega

theorem represents_history (hsize : 0 < pageSize)
    (h : ∀ access ∈ history, Fits pageSize access.address access.size) :
    Returns (history.forM (·.perform pageSize)) ∅ fun _ pages => Represents pageSize pages (recordOf history) := by
  refine Returns.forM (I := fun done pages => Represents pageSize pages (recordOf done)) ?_ represents_empty
  intro done access pages hpre hdone
  have hfits := h access (hpre.subset (List.mem_append_right _ (.head _)))
  rw [recordOf_append]
  exact hdone.perform hsize hfits

/-- After any history of accesses that stay in their pages, the pages count for each address the accesses that covered
    it, and hold the bytes that were last written. -/
theorem page_table_records (hsize : 0 < pageSize)
    (h : ∀ access ∈ history, Fits pageSize access.address access.size) :
    ∃ pages, history.forM (·.perform pageSize) ∅ = .ok () pages ∧ WellFormed pageSize pages ∧
      (∀ kind a, count pageSize pages kind a = timesCovered history kind a) ∧
      ∀ address size, Fits pageSize address size → ∃ pages', readCachedData pageSize address size pages =
        .ok (((List.range size.toNat).mapM fun i : Nat => lastWritten history (address + i)).map ofLE) pages' := by
  obtain ⟨_, pages, hrun, hpages⟩ := represents_history hsize h
  have hnonneg : ∀ access ∈ history, 0 ≤ access.size := fun access ha => (h access ha).size_nonneg
  refine ⟨pages, hrun, hpages.wellFormed, fun kind a => ?_, fun address size hfits => ?_⟩
  · rw [hpages.counts, counts_recordOf hnonneg]
  · obtain ⟨value, pages', hread, hvalue, -⟩ := hpages.readCachedData hsize hfits
    simp only [data_recordOf hnonneg] at hvalue
    exact ⟨pages', hvalue ▸ hread⟩

end History

/-- Two writes that overlap in the last bytes of a page, and the fetch of a Thumb instruction from there -/
def overlapping : List Access := [.write 0 8 4 0x44332211, .write 0 10 2 0xbbaa, .programCounter 10 0x20]

theorem fits_overlapping : ∀ access ∈ overlapping, Fits 12 access.address access.size := by
  intro access h
  simp only [overlapping, List.mem_cons, List.not_mem_nil, or_false] at h
  rcases h with rfl | rfl | rfl
  all_goals exact ⟨by decide, by decide, by decide, by decide⟩

theorem page_table_records_overlapping : ∃ pages, overlapping.forM (·.perform 12) ∅ = .ok () pages ∧
    count 12 pages .write 11 = 2 ∧ count 12 pages .execute 11 = 1 ∧
    ∃ pages', readCachedData 12 8 4 pages = .ok (some 0xbbaa2211) pages' := by
  obtain ⟨pages, hrun, -, hcount, hread⟩ := page_table_records (by decide) fits_overlapping
  exact ⟨pages, hrun, hcount .write 11, hcount .execute 11, hread 8 4 ⟨by decide, by decide, by decide, by decide⟩⟩

end Avatar.MemoryRangeIdentifier
