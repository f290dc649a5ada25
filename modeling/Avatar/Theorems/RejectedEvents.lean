import Avatar.Theorems.PageTable

/-! What an event leaves that the memory identifier rejects. An event makes up to three updates: of the access, of the
    stack pointer's word, and of the instruction. Each one checks what it is given before it changes anything, but
    nothing takes an update back when a later one is rejected. -/

namespace Avatar.MemoryRangeIdentifier
open StateExcept

namespace RejectedEvents

section Updates
variable {pageSize : Nat} {pages pages' : Pages} {address size key number : Int} {e : PyException}
  {body : Nat → Page → Except PyException Page}

/-! ### Errors of an update -/

theorem item_error {α : Type} {l : List α} {i : Nat} (h : item l i = .error e) : e = .indexError := by
  rw [item] at h
  split at h
  · cases h
  · cases h
    rfl

theorem update_error {α : Type} {l : List α} {i : Nat} {f : α → α} (h : update l i f = .error e) : e = .indexError := by
  rcases error_of_bind h with h | ⟨a, -, h⟩
  · exact item_error h
  · cases h

theorem increment_error {mark : Mark} {i : Nat} {page : Page} (h : page.increment mark i = .error e) :
    e = .indexError := by
  rcases error_of_bind h with h | ⟨counts, -, h⟩
  · exact update_error h
  · cases h

theorem setData_error {i : Nat} {value : Int} {page : Page} (h : page.setData i value = .error e) :
    e = .indexError := by
  rcases error_of_bind h with h | ⟨data, -, h⟩
  · exact update_error h
  · cases h

/-- The page of a loop is there until its end. -/
theorem forM_error (hbody : ∀ i page e, body i page = .error e → e = .indexError) {l : List Nat} (hkey : key ∈ pages)
    (h : forM l (fun i => modifyPage key (body i)) pages = .error e pages') : e = .indexError := by
  induction l generalizing pages with
  | nil => cases h
  | cons i l ih =>
    obtain ⟨page, hlookup⟩ := Option.isSome_iff_exists.mp (AList.lookup_isSome.mpr hkey)
    rw [List.forM_cons] at h
    cases hpage : body i page with
    | ok page' =>
      rw [bind_ok (modifyPage_ok hlookup hpage)] at h
      exact ih ((AList.mem_insert _).mpr (.inl rfl)) h
    | error e' =>
      have herror : modifyPage key (body i) pages = .error e' pages := by
        rw [modifyPage, hlookup]
        dsimp only
        rw [hpage]
      rw [bind_error herror] at h
      cases h
      exact hbody i page e hpage

/-! ### The assertions come first -/

theorem pageNumber_error (h : pageNumber pageSize address = .error e) : e ≠ .indexError := by
  rw [pageNumber] at h
  split at h
  · cases h
    decide
  · dsimp only at h
    split at h
    · cases h
    · cases h
      decide

/-- What the assertions make of an access does not depend on the pages. -/
theorem assertAccess_cases (pageSize : Nat) (address size : Int) :
    (∃ e, e ≠ .indexError ∧ ∀ pages, assertAccess pageSize address size pages = .error e pages) ∨
    ((size = 1 ∨ size = 2 ∨ size = 4 ∨ size = 8) ∧ ∃ number, pageNumber pageSize address = .ok number ∧
      pageNumber pageSize (address + size - 1) = .ok number ∧
      ∀ pages, assertAccess pageSize address size pages = .ok () pages) := by
  by_cases hknown : size = 1 ∨ size = 2 ∨ size = 4 ∨ size = 8
  · have hassert (pages : Pages) : assert (size = 1 ∨ size = 2 ∨ size = 4 ∨ size = 8) pages = .ok () pages := by
      rw [assert, if_pos hknown]
      rfl
    cases hfirst : pageNumber pageSize address with
    | error e =>
      refine .inl ⟨e, pageNumber_error hfirst, fun pages => ?_⟩
      rw [assertAccess, bind_ok (hassert pages), hfirst]
      rfl
    | ok first =>
      cases hlast : pageNumber pageSize (address + size - 1) with
      | error e =>
        refine .inl ⟨e, pageNumber_error hlast, fun pages => ?_⟩
        rw [assertAccess, bind_ok (hassert pages), bind_ok (lift_ok hfirst _), hlast]
        rfl
      | ok last =>
        have heq := assertAccess_eq hknown hfirst hlast
        by_cases hpage : first = last
        · subst hpage
          exact .inr ⟨hknown, first, rfl, rfl, fun pages => (heq pages).trans (if_pos rfl)⟩
        · exact .inl ⟨.assertionError, by decide, fun pages => (heq pages).trans (if_neg hpage)⟩
  · refine .inl ⟨.assertionError, by decide, fun pages => ?_⟩
    have hassert : assert (size = 1 ∨ size = 2 ∨ size = 4 ∨ size = 8) pages = .error .assertionError pages := by
      rw [assert, if_neg hknown]
      rfl
    rw [assertAccess, bind_error hassert]

/-! ### Updates -/

/-- An update at the addresses of an access -/
def updateAccess (pageSize : Nat) (address size : Int) (body : Nat → Page → Except PyException Page) : PluginM Unit := do
  assertAccess pageSize address size
  let page ← getPage pageSize address
  forM (List.range size.toNat) fun i => modifyPage page (body i)

theorem updateAccess_error (hbody : ∀ i page e, body i page = .error e → e = .indexError)
    (h : updateAccess pageSize address size body pages = .error e pages') :
    e = .indexError ∨ pages' = pages ∧ ∀ pages, assertAccess pageSize address size pages = .error e pages := by
  rcases assertAccess_cases pageSize address size with ⟨e', -, hassert⟩ | ⟨-, number, hnumber, -, hassert⟩
  · rw [updateAccess, bind_error (hassert pages)] at h
    cases h
    exact .inr ⟨rfl, hassert⟩
  · rw [updateAccess, bind_ok (hassert pages), bind_ok (getPage_eq hnumber pages)] at h
    refine .inl (forM_error hbody ?_ h)
    split_ifs with hpage
    · exact hpage
    · exact (AList.mem_insert _).mpr (.inl rfl)

end Updates

/-! ### The three updates -/

/-- What raises anything but an `IndexError` leaves the pages as they were. -/
def Whole {α : Type} (x : PluginM α) : Prop :=
  ∀ pages, Ends x pages (fun _ _ => True) fun e pages' => e = .indexError ∨ pages' = pages

namespace Whole
variable {α β : Type}

theorem pure (a : α) : Whole (Pure.pure a) := fun _ => trivial

theorem lift_bind {x : Except PyException α} {f : α → PluginM β} (h : ∀ a, Whole (f a)) : Whole (lift x >>= f) := by
  intro pages
  cases x with
  | ok a => exact h a pages
  | error e => exact .inr rfl

theorem bind_pure {x : PluginM α} (h : Whole x) (b : β) : Whole (x >>= fun _ => Pure.pure b) :=
  fun pages => (h pages).bind fun _ _ _ => trivial

end Whole

section Steps
variable (pageSize : Nat) (address size value : Int) (evt : Event Properties)

theorem whole_markData (kind : Mark) : Whole (markData pageSize address size kind) := by
  intro pages
  cases hrun : markData pageSize address size kind pages with
  | ok a pages' => rw [Ends, hrun]; trivial
  | error e pages' =>
    refine .of_error hrun ?_
    rcases updateAccess_error (fun _ _ _ => increment_error) hrun with hindex | ⟨hpages, -⟩
    · exact .inl hindex
    · exact .inr hpages

/-- Both updates of a write are checked in the same way, so the second one is not rejected. -/
theorem whole_addMemoryWriteAccess : Whole (addMemoryWriteAccess pageSize address size value) := by
  intro pages
  cases hmark : markData pageSize address size .write pages with
  | error e pages' => exact .of_error (bind_error hmark) ((whole_markData pageSize address size .write pages).error hmark)
  | ok a pages₁ =>
    cases hwrite : writeData pageSize address size value pages₁ with
    | ok b pages₂ =>
      rw [Ends, addMemoryWriteAccess, bind_ok hmark, hwrite]
      trivial
    | error e pages₂ =>
      refine .of_error ((bind_ok hmark).trans hwrite) (.inl ?_)
      rcases updateAccess_error (fun _ _ _ => setData_error) hwrite with hindex | ⟨-, hassert⟩
      · exact hindex
      · have hrejected : markData pageSize address size .write pages = .error e pages := by
          rw [markData, bind_error (hassert pages)]
        cases hrejected.symm.trans hmark

theorem whole_addAccess : Whole (addAccess pageSize evt) := by
  unfold addAccess
  split
  · exact .lift_bind fun _ => .lift_bind fun address => .lift_bind fun size => .lift_bind fun value =>
      (whole_addMemoryWriteAccess pageSize address size value).bind_pure true
  · split
    · exact .lift_bind fun _ => .lift_bind fun address => .lift_bind fun size =>
        ((whole_markData pageSize address size .read).bind_pure ()).bind_pure true
    · exact .pure false

theorem whole_addStackPointer : Whole (addStackPointer pageSize evt) :=
  .lift_bind fun sp => .lift_bind fun _ => whole_markData pageSize sp 4 .stack

theorem whole_addProgramCounter : Whole (addProgramCounter pageSize evt) :=
  .lift_bind fun pc => .lift_bind fun cpsr => whole_markData pageSize pc (instructionSize cpsr) .execute

end Steps

/-- What an event leaves that is rejected: the updates in front of the one that raises are done, and this one is not. -/
inductive Rejected (pageSize : Nat) (evt : Event Properties) (e : PyException) (pages : Pages) : Pages → Prop
  | access (h : addAccess pageSize evt pages = .error e pages) : Rejected pageSize evt e pages pages
  | stackPointer {pages₁} (haccess : addAccess pageSize evt pages = .ok true pages₁)
    (h : addStackPointer pageSize evt pages₁ = .error e pages₁) : Rejected pageSize evt e pages pages₁
  | programCounter {pages₁ pages₂} (haccess : addAccess pageSize evt pages = .ok true pages₁)
    (hstack : addStackPointer pageSize evt pages₁ = .ok () pages₂)
    (h : addProgramCounter pageSize evt pages₂ = .error e pages₂) : Rejected pageSize evt e pages pages₂

variable {pageSize : Nat} {pages pages' : Pages} {evt : Event Properties} {e : PyException}

theorem rejected_of_error (h : processEvent pageSize evt pages = .error e pages') (hindex : e ≠ .indexError) :
    Rejected pageSize evt e pages pages' := by
  rw [processEvent] at h
  split at h
  · cases haccess : addAccess pageSize evt pages with
    | error e' pages₁ =>
      rw [bind_error haccess] at h
      cases h
      obtain rfl := ((whole_addAccess pageSize evt pages).error haccess).resolve_left hindex
      exact .access haccess
    | ok memory_access pages₁ =>
      rw [bind_ok haccess] at h
      cases memory_access with
      | false => cases h
      | true =>
        rw [if_pos rfl] at h
        cases hstack : addStackPointer pageSize evt pages₁ with
        | error e' pages₂ =>
          rw [bind_error hstack] at h
          cases h
          obtain rfl := ((whole_addStackPointer pageSize evt pages₁).error hstack).resolve_left hindex
          exact .stackPointer haccess hstack
        | ok a pages₂ =>
          rw [bind_ok hstack] at h
          obtain rfl := ((whole_addProgramCounter pageSize evt pages₂).error h).resolve_left hindex
          exact .programCounter haccess hstack h
  · cases h

/-! ### Addresses of 32 bits -/

/-- The addresses of an event, as far as there are any -/
structure InRange (evt : Event Properties) : Prop where
  address : ∀ a, property evt Properties.address = .ok a → 0 ≤ a ∧ a < 2 ^ 32
  stackPointer : ∀ sp, register evt "r13" = .ok sp → 0 ≤ sp ∧ sp < 2 ^ 32
  programCounter : ∀ pc, register evt "pc" = .ok pc → 0 ≤ pc ∧ pc < 2 ^ 32

theorem member_error {α : Type} {x : Option α} (h : member x = .error e) : e ≠ .indexError := by
  cases x with
  | none =>
    cases h
    decide
  | some a => cases h

theorem property_error {α : Type} {key : Properties → Option α} (h : property evt key = .error e) : e ≠ .indexError := by
  rcases error_of_bind h with h | ⟨properties, -, h⟩
  · exact member_error h
  · exact member_error h

theorem getItem_error {v : Json} {key : String} (h : S2ERemoteMemoryInterface.getItem v key = .error e) :
    e ≠ .indexError := by
  unfold S2ERemoteMemoryInterface.getItem at h
  split at h
  · split at h
    · cases h
    · cases h
      decide
  · cases h
    decide

theorem hexInt_error {v : Json} (h : S2ERemoteMemoryInterface.hexInt v = .error e) : e ≠ .indexError := by
  unfold S2ERemoteMemoryInterface.hexInt int at h
  split at h
  · split at h
    · cases h
    · cases h
      decide
  · cases h
    decide

theorem register_error {name : String} (h : register evt name = .error e) : e ≠ .indexError := by
  rcases error_of_bind h with h | ⟨cpu_state, -, h⟩
  · exact property_error h
  · rcases error_of_bind h with h | ⟨value, -, h⟩
    · exact getItem_error h
    · exact hexInt_error h

/-- The pages hold a record. -/
def Recorded (pageSize : Nat) (pages : Pages) : Prop := ∃ r, Represents pageSize pages r

/-- On pages that hold a record a program leaves such pages, and raises no `IndexError`. -/
def Sound {α : Type} (pageSize : Nat) (x : PluginM α) : Prop :=
  ∀ pages, Recorded pageSize pages →
    Ends x pages (fun _ => Recorded pageSize) fun e pages' => e ≠ .indexError ∧ Recorded pageSize pages'

namespace Sound
variable {α β : Type}

theorem pure (a : α) : Sound pageSize (Pure.pure a) := fun _ h => h

theorem bind {x : PluginM α} {f : α → PluginM β} (hx : Sound pageSize x) (hf : ∀ a, Sound pageSize (f a)) :
    Sound pageSize (x >>= f) := fun pages h => (hx pages h).bind fun a pages' h' => hf a pages' h'

theorem lift_bind {x : Except PyException α} {f : α → PluginM β} (herror : ∀ e, x = .error e → e ≠ .indexError)
    (hf : ∀ a, x = .ok a → Sound pageSize (f a)) : Sound pageSize (lift x >>= f) := by
  intro pages h
  cases hx : x with
  | ok a => exact hf a hx pages h
  | error e => exact ⟨herror e hx, h⟩

end Sound

section Access
variable (hsize : 0 < pageSize) {address size : Int} (haddress : 0 ≤ address ∧ address < 2 ^ 32)
include hsize haddress

theorem rejected_or_fits :
    (∃ e, e ≠ .indexError ∧ ∀ pages, assertAccess pageSize address size pages = .error e pages) ∨
    Fits pageSize address size := by
  refine (assertAccess_cases pageSize address size).imp_right ?_
  rintro ⟨hknown, number, hfirst, hlast, -⟩
  rw [pageNumber_eq hsize haddress.1 (by omega)] at hfirst
  rw [pageNumber_eq hsize (by omega) (by omega)] at hlast
  exact ⟨haddress.1, haddress.2, hknown, Except.ok.inj (hfirst.trans hlast.symm)⟩

theorem sound_markData (kind : Mark) : Sound pageSize (markData pageSize address size kind) := by
  rintro pages ⟨r, h⟩
  rcases rejected_or_fits hsize haddress with ⟨e, he, hassert⟩ | hfits
  · exact .of_error (by rw [markData, bind_error (hassert pages)]) ⟨he, r, h⟩
  · exact ((h.markData hsize hfits).mono fun _ _ h => ⟨_, h⟩).ends

theorem sound_writeData (value : Int) : Sound pageSize (writeData pageSize address size value) := by
  rintro pages ⟨r, h⟩
  rcases rejected_or_fits hsize haddress with ⟨e, he, hassert⟩ | hfits
  · exact .of_error (by rw [writeData, bind_error (hassert pages)]) ⟨he, r, h⟩
  · exact ((h.writeData hsize hfits value).mono fun _ _ h => ⟨_, h⟩).ends

end Access

theorem sound_processEvent (hsize : 0 < pageSize) (h : InRange evt) : Sound pageSize (processEvent pageSize evt) := by
  have hregister (name : String) (e : PyException) (h : register evt name = .error e) := register_error h
  have haccess : Sound pageSize (addAccess pageSize evt) := by
    unfold addAccess
    split
    · exact .lift_bind (hregister "cpsr") fun _ _ => .lift_bind (fun _ => property_error) fun address haddress =>
        .lift_bind (fun _ => property_error) fun size _ => .lift_bind (fun _ => property_error) fun value _ =>
          ((sound_markData hsize (h.address address haddress) .write).bind fun _ =>
            sound_writeData hsize (h.address address haddress) value).bind fun _ => .pure true
    · split
      · exact .lift_bind (hregister "cpsr") fun _ _ => .lift_bind (fun _ => property_error) fun address haddress =>
          .lift_bind (fun _ => property_error) fun size _ =>
            ((sound_markData hsize (h.address address haddress) .read).bind fun _ => .pure ()).bind fun _ => .pure true
      · exact .pure false
  have hstack : Sound pageSize (addStackPointer pageSize evt) :=
    .lift_bind (hregister "r13") fun sp hsp => .lift_bind (hregister "cpsr") fun _ _ =>
      sound_markData hsize (h.stackPointer sp hsp) .stack
  have hinstruction : Sound pageSize (addProgramCounter pageSize evt) :=
    .lift_bind (hregister "pc") fun pc hpc => .lift_bind (hregister "cpsr") fun _ _ =>
      sound_markData hsize (h.programCounter pc hpc) .execute
  unfold processEvent
  split
  · refine haccess.bind fun memory_access => ?_
    split
    · exact hstack.bind fun _ => hinstruction
    · exact .pure ()
  · exact .pure ()

/-- The pages after some events. What is raised is logged. -/
def pagesAfter (pageSize : Nat) (events : List (Event Properties)) : Pages :=
  events.foldl (fun pages evt => final (processEvent pageSize evt pages)) ∅

theorem recorded_pagesAfter (hsize : 0 < pageSize) {events : List (Event Properties)} (h : ∀ evt ∈ events, InRange evt) :
    Recorded pageSize (pagesAfter pageSize events) := by
  suffices hrun : ∀ pages, Recorded pageSize pages →
      Recorded pageSize (events.foldl (fun pages evt => final (processEvent pageSize evt pages)) pages) from
    hrun ∅ ⟨_, represents_empty⟩
  induction events with
  | nil => exact fun pages hpages => hpages
  | cons evt events ih =>
    obtain ⟨hevt, hevents⟩ := List.forall_mem_cons.mp h
    intro pages hpages
    exact ih hevents _ ((sound_processEvent hsize hevt pages hpages).final (fun _ _ h => h) fun _ _ h => h.2)

/-- An event that is rejected leaves the updates in front of the one that raises. That one has changed nothing, unless
    it raises an `IndexError`, and none does while all addresses have 32 bits. -/
theorem rejected_event_keeps (pageSize : Nat) (pages : Pages) (evt : Event Properties) {e : PyException} {pages' : Pages}
    (h : processEvent pageSize evt pages = .error e pages') :
    (e ≠ .indexError → Rejected pageSize evt e pages pages') ∧
    (0 < pageSize → InRange evt → (∃ events, (∀ evt ∈ events, InRange evt) ∧ pages = pagesAfter pageSize events) →
      e ≠ .indexError) := by
  refine ⟨rejected_of_error h, ?_⟩
  rintro hsize hevt ⟨events, hevents, rfl⟩
  exact ((sound_processEvent hsize hevt _ (recorded_pagesAfter hsize hevents)).error h).1

/-- A read of the word at 0x100, with a stack pointer whose word crosses a page -/
def crossing : Event Properties where
  tags := [.requestReadMemoryValue]
  source := .emulator
  properties := some ⟨some 0x100, some 4, none, some (.obj
    [(Json.units "cpsr", .str (Json.units "0x10")), (Json.units "r13", .str (Json.units "0x1fe")),
      (Json.units "pc", .str (Json.units "0x200"))])⟩

theorem crossing_rejected : ∃ pages, processEvent 512 crossing ∅ = .error .assertionError pages ∧
    Represents 512 pages (Record.empty.mark .read 0x100 4) := by
  have hcpsr : register crossing "cpsr" = .ok 0x10 := rfl
  have hsp : register crossing "r13" = .ok 0x1fe := rfl
  have hfits : Fits 512 0x100 4 := ⟨by decide, by decide, by decide, by decide⟩
  obtain ⟨a, pages, hmark, hpages⟩ := represents_empty.markData (by decide) hfits
  have haccess : addAccess 512 crossing ∅ = .ok true pages := by
    have haddress : property crossing Properties.address = .ok 0x100 := rfl
    have hsize : property crossing Properties.size = .ok 4 := rfl
    have hread : addMemoryReadAccess 512 0x100 4 none ∅ = .ok () pages := by
      rw [addMemoryReadAccess, bind_ok hmark]
      rfl
    rw [addAccess, if_neg (by decide), if_pos (by decide), bind_ok (lift_ok hcpsr _), bind_ok (lift_ok haddress _),
      bind_ok (lift_ok hsize _), bind_ok hread]
    rfl
  have hfirst : pageNumber 512 0x1fe = .ok 0 := pageNumber_eq (by decide) (by decide) (by decide)
  have hlast : pageNumber 512 (0x1fe + 4 - 1) = .ok 1 := pageNumber_eq (by decide) (by decide) (by decide)
  have hstack : addStackPointer 512 crossing pages = .error .assertionError pages := by
    rw [addStackPointer, bind_ok (lift_ok hsp _), bind_ok (lift_ok hcpsr _)]
    exact bind_error ((assertAccess_eq (by decide) hfirst hlast pages).trans (if_neg (by decide)))
  refine ⟨pages, ?_, hpages⟩
  have hsource : crossing.source = .emulator := rfl
  rw [processEvent, if_pos hsource, bind_ok haccess, if_pos rfl, bind_error hstack]

theorem rejected_event_keeps_crossing :
    ∃ pages, processEvent 512 crossing ∅ = .error .assertionError pages ∧ Rejected 512 crossing .assertionError ∅ pages := by
  obtain ⟨pages, hrun, -⟩ := crossing_rejected
  exact ⟨pages, hrun, (rejected_event_keeps 512 ∅ crossing hrun).1 (by decide)⟩

/-- The access has been counted. -/
theorem rejected_event_changes : ¬ ∀ (pageSize : Nat) (pages : Pages) (evt : Event Properties) (e : PyException)
    (pages' : Pages), processEvent pageSize evt pages = .error e pages' → pages' = pages := by
  intro h
  obtain ⟨pages, hrun, hpages⟩ := crossing_rejected
  have hcount := hpages.counts .read 0x100
  rw [h 512 ∅ crossing _ _ hrun, represents_empty.counts, Record.counts_mark] at hcount
  revert hcount
  decide

end RejectedEvents

end Avatar.MemoryRangeIdentifier
