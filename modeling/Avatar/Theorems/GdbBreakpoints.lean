import Mathlib.Data.Finset.Basic
import Avatar.Lib.StateExcept
import Avatar.Theorems.GdbReplies

/-! The breakpoints of the GDB server. Each is a breakpoint of the backend that the server has created, and is kept
    under its address. A second breakpoint at an address replaces the first in the table, and the first stays in the
    backend. -/

namespace Avatar.GdbServer
open StateExcept Traversal

variable {σ β : Type} {debuggable : Debuggable σ β}

/-- The breakpoints behind a debuggable: those that there are in each state, and where they are. Setting one creates a
    new one, and `delete` removes that one. -/
structure Backend (debuggable : Debuggable σ β) where
  live : σ → Set β
  location : β → Int
  fresh : ∀ address s, (debuggable.setBreakpoint address s).1 ∉ live s
  created : ∀ address s,
    live (debuggable.setBreakpoint address s).2 = insert (debuggable.setBreakpoint address s).1 (live s)
  located : ∀ address s, location (debuggable.setBreakpoint address s).1 = address
  deleted : ∀ bkpt s, bkpt ∈ live s → live (debuggable.delete bkpt s).2 = live s \ {bkpt}

/-- A `Z` or `z` packet with a type that is implemented. -/
structure BreakpointPacket where
  inserts : Bool
  arguments : List Char
  address : Int
  valid : BreakpointAt arguments address

namespace BreakpointPacket

def text (packet : BreakpointPacket) : List Char := (if packet.inserts then 'Z' else 'z') :: packet.arguments

end BreakpointPacket

/-- The state after some packets. What a packet raises ends the receiver's thread, and those behind it are not
    handled. -/
def afterPackets (debuggable : Debuggable σ β) (packets : List BreakpointPacket) (s : GdbServer σ β) :
    GdbServer σ β :=
  final (packets.forM (fun packet => messageReceived debuggable packet.text) s)

/-- The backend's breakpoints apart from the `others` are the ones in the table, each under the address where it is. -/
structure TableMatches (backend : Backend debuggable) (others : Set β) (s : GdbServer σ β) : Prop where
  stored : ∀ bkpt, bkpt ∈ backend.live s.debuggable \ others ↔ ∃ address, s.breakpoints.lookup address = some bkpt
  located : ∀ address bkpt, s.breakpoints.lookup address = some bkpt → backend.location bkpt = address

/-- No packet has ended the receiver's thread. -/
def Running (debuggable : Debuggable σ β) (packets : List BreakpointPacket) (s : GdbServer σ β) : Prop :=
  ∃ s', packets.forM (fun packet => messageReceived debuggable packet.text) s = .ok () s'

/-- After the packets `done` and one more, the table matches the backend; and if that packet is a `z` that the server
    gets to handle, there is no breakpoint at its address. -/
def MatchesAfter (backend : Backend debuggable) (others : Set β) (s : GdbServer σ β) (done : List BreakpointPacket)
    (packet : BreakpointPacket) : Prop :=
  TableMatches backend others (afterPackets debuggable (done ++ [packet]) s) ∧
    (packet.inserts = false → Running debuggable done s →
      ∀ bkpt ∈ backend.live (afterPackets debuggable (done ++ [packet]) s).debuggable \ others,
        backend.location bkpt ≠ packet.address)

/-- No `Z` names an address where there is already a breakpoint, up to the first `z` for an address where there is
    none. -/
def Undoubled (held : Finset Int) : List BreakpointPacket → Prop
  | [] => True
  | packet :: packets =>
    if packet.inserts then packet.address ∉ held ∧ Undoubled (insert packet.address held) packets
    else packet.address ∈ held → Undoubled (held.erase packet.address) packets

/-! ### One packet -/

section Packet
variable {s s' : GdbServer σ β} {packet : BreakpointPacket} {packets : List BreakpointPacket} {bkpt : β}

theorem exists_validType {arguments : List Char} {address : Int} (h : BreakpointAt arguments address) :
    ∃ tipe kind, item arguments 0 = .ok tipe ∧ field arguments ',' 2 = .ok kind ∧
      (tipe.toNat : Int) - '0'.toNat ∈ [0, 1] := by
  obtain ⟨htipe, -, hlength⟩ := h
  obtain ⟨tipe, hitem, hvalid⟩ := exists_tipe htipe
  obtain ⟨kind, hkind⟩ := exists_field_iff.mpr hlength
  exact ⟨tipe, kind, item_eq_ok.mpr hitem, hkind, (breakpointType_iff tipe).mpr hvalid⟩

theorem isAscii_ok : Ascii.IsAscii "OK".toList := by decide

theorem insert_ok (debuggable : Debuggable σ β) (s : GdbServer σ β) (h : packet.inserts = true) :
    messageReceived debuggable packet.text s = .ok ()
    { debuggable := (debuggable.setBreakpoint packet.address s.debuggable).2
      breakpoints := s.breakpoints.insert packet.address (debuggable.setBreakpoint packet.address s.debuggable).1
      sent := s.sent ++ ["OK".toList] } := by
  obtain ⟨tipe, kind, htipe, hkind, hvalid⟩ := exists_validType packet.valid
  rw [BreakpointPacket.text, h]
  show insertBreakpoint debuggable packet.arguments s = _
  rw [insertBreakpoint, bind_ok (raises_ok htipe), bind_ok (raises_ok packet.valid.2.1),
    bind_ok (raises_ok hkind), if_pos hvalid]
  exact sendMessage_ok isAscii_ok

theorem remove_ok (h : packet.inserts = false) (hlookup : s.breakpoints.lookup packet.address = some bkpt) :
    messageReceived debuggable packet.text s = .ok ()
      { debuggable := (debuggable.delete bkpt s.debuggable).2
        breakpoints := s.breakpoints.erase packet.address
        sent := s.sent ++ ["OK".toList] } := by
  obtain ⟨tipe, kind, htipe, hkind, hvalid⟩ := exists_validType packet.valid
  have hbkpt : breakpoint packet.address s = .ok bkpt s := by rw [breakpoint, hlookup]
  rw [BreakpointPacket.text, h]
  show removeBreakpoint debuggable packet.arguments s = _
  rw [removeBreakpoint, bind_ok (raises_ok htipe), bind_ok (raises_ok packet.valid.2.1),
    bind_ok (raises_ok hkind), if_pos hvalid, bind_ok hbkpt]
  exact sendMessage_ok isAscii_ok

theorem remove_error (debuggable : Debuggable σ β) (h : packet.inserts = false)
    (hlookup : s.breakpoints.lookup packet.address = none) :
    messageReceived debuggable packet.text s = .error .keyError s := by
  obtain ⟨tipe, kind, htipe, hkind, hvalid⟩ := exists_validType packet.valid
  have hbkpt : breakpoint packet.address s = .error .keyError s := by rw [breakpoint, hlookup]
  rw [BreakpointPacket.text, h]
  show removeBreakpoint debuggable packet.arguments s = _
  rw [removeBreakpoint, bind_ok (raises_ok htipe), bind_ok (raises_ok packet.valid.2.1),
    bind_ok (raises_ok hkind), if_pos hvalid, bind_error hbkpt]

theorem afterPackets_cons_ok (h : messageReceived debuggable packet.text s = .ok () s') :
    afterPackets debuggable (packet :: packets) s = afterPackets debuggable packets s' := by
  have hrun : (packet :: packets).forM (fun packet => messageReceived debuggable packet.text) s =
      packets.forM (fun packet => messageReceived debuggable packet.text) s' := bind_ok h
  rw [afterPackets, hrun, afterPackets]

theorem afterPackets_cons_error {e : PyException} (h : messageReceived debuggable packet.text s = .error e s') :
    afterPackets debuggable (packet :: packets) s = s' := by
  have hrun : (packet :: packets).forM (fun packet => messageReceived debuggable packet.text) s = .error e s' :=
    bind_error h
  rw [afterPackets, hrun, final]

end Packet

/-! ### The table and the backend -/

section Table
variable {backend : Backend debuggable} {others : Set β} {held : Finset Int} {s s' : GdbServer σ β}
  {packet : BreakpointPacket} {packets : List BreakpointPacket} {bkpt : β}

/-- The table matches the backend, and has entries for the addresses that are `held`. -/
structure Holds (backend : Backend debuggable) (others : Set β) (held : Finset Int) (s : GdbServer σ β) : Prop where
  others_live : others ⊆ backend.live s.debuggable
  table : TableMatches backend others s
  mem_iff : ∀ address, address ∈ held ↔ address ∈ s.breakpoints

theorem Holds.insert (h : Holds backend others held s) (hinserts : packet.inserts = true) (hnew : packet.address ∉ held) :
    ∃ s', messageReceived debuggable packet.text s = .ok () s' ∧
      Holds backend others (insert packet.address held) s' := by
  have hfresh := backend.fresh packet.address s.debuggable
  have habsent : s.breakpoints.lookup packet.address = none :=
    AList.lookup_eq_none.mpr fun hmem => hnew ((h.mem_iff _).mpr hmem)
  refine ⟨_, insert_ok debuggable s hinserts, ?_, ⟨fun bkpt => ?_, fun address bkpt hlookup => ?_⟩, fun address => ?_⟩
  · rw [backend.created]
    exact h.others_live.trans (Set.subset_insert ..)
  · dsimp only
    rw [backend.created]
    constructor
    · rintro ⟨rfl | hlive, hbkpt⟩
      · exact ⟨packet.address, AList.lookup_insert _⟩
      · obtain ⟨address, hlookup⟩ := (h.table.stored bkpt).mp ⟨hlive, hbkpt⟩
        have hne : address ≠ packet.address := by
          rintro rfl
          cases habsent.symm.trans hlookup
        exact ⟨address, (AList.lookup_insert_ne hne).trans hlookup⟩
    · rintro ⟨address, hlookup⟩
      rcases eq_or_ne address packet.address with rfl | hne
      · rw [AList.lookup_insert] at hlookup
        cases hlookup
        exact ⟨.inl rfl, fun hother => hfresh (h.others_live hother)⟩
      · rw [AList.lookup_insert_ne hne] at hlookup
        obtain ⟨hlive, hbkpt⟩ := (h.table.stored bkpt).mpr ⟨address, hlookup⟩
        exact ⟨.inr hlive, hbkpt⟩
  · rcases eq_or_ne address packet.address with rfl | hne
    · rw [AList.lookup_insert] at hlookup
      cases hlookup
      exact backend.located ..
    · rw [AList.lookup_insert_ne hne] at hlookup
      exact h.table.located address bkpt hlookup
  · rw [Finset.mem_insert, h.mem_iff]
    exact (AList.mem_insert _).symm

theorem Holds.remove (h : Holds backend others held s) (hinserts : packet.inserts = false) (hold : packet.address ∈ held) :
    ∃ s', messageReceived debuggable packet.text s = .ok () s' ∧
      Holds backend others (held.erase packet.address) s' := by
  obtain ⟨old, hold⟩ := Option.isSome_iff_exists.mp (AList.lookup_isSome.mpr ((h.mem_iff _).mp hold))
  obtain ⟨hlive, hmine⟩ := (h.table.stored old).mpr ⟨_, hold⟩
  have hlocation := h.table.located _ _ hold
  refine ⟨_, remove_ok hinserts hold, ?_, ⟨fun bkpt => ?_, fun address bkpt hlookup => ?_⟩, fun address => ?_⟩
  · rw [backend.deleted old _ hlive]
    exact fun other hother => ⟨h.others_live hother, fun heq => hmine (heq ▸ hother)⟩
  · dsimp only
    rw [backend.deleted old _ hlive]
    constructor
    · rintro ⟨⟨hlive, hne⟩, hbkpt⟩
      obtain ⟨address, hlookup⟩ := (h.table.stored bkpt).mp ⟨hlive, hbkpt⟩
      have haddress : address ≠ packet.address := by
        rintro rfl
        exact hne (Option.some.inj (hlookup.symm.trans hold))
      exact ⟨address, (AList.lookup_erase_ne haddress).trans hlookup⟩
    · rintro ⟨address, hlookup⟩
      rcases eq_or_ne address packet.address with rfl | hne
      · rw [AList.lookup_erase] at hlookup
        cases hlookup
      · rw [AList.lookup_erase_ne hne] at hlookup
        obtain ⟨hlive, hbkpt⟩ := (h.table.stored bkpt).mpr ⟨address, hlookup⟩
        refine ⟨⟨hlive, ?_⟩, hbkpt⟩
        -- A breakpoint is in the table only once: it is at the address of its entry.
        rintro rfl
        exact hne ((h.table.located _ _ hlookup).symm.trans hlocation)
  · rcases eq_or_ne address packet.address with rfl | hne
    · rw [AList.lookup_erase] at hlookup
      cases hlookup
    · rw [AList.lookup_erase_ne hne] at hlookup
      exact h.table.located address bkpt hlookup
  · rw [Finset.mem_erase, h.mem_iff]
    exact AList.mem_erase.symm

/-- The breakpoint that a second one replaces in the table stays in the backend. -/
theorem Holds.not_table_insert (h : Holds backend others held s) (hinserts : packet.inserts = true)
    (hold : packet.address ∈ held) (hrun : messageReceived debuggable packet.text s = .ok () s') :
    ¬TableMatches backend others s' := by
  intro htable
  cases (insert_ok debuggable s hinserts).symm.trans hrun
  obtain ⟨old, hold⟩ := Option.isSome_iff_exists.mp (AList.lookup_isSome.mpr ((h.mem_iff _).mp hold))
  obtain ⟨hlive, hmine⟩ := (h.table.stored old).mpr ⟨_, hold⟩
  have hlocation := h.table.located _ _ hold
  have hlive' : old ∈ backend.live (debuggable.setBreakpoint packet.address s.debuggable).2 := by
    rw [backend.created]
    exact .inr hlive
  obtain ⟨address, hlookup⟩ := (htable.stored old).mp ⟨hlive', hmine⟩
  cases (htable.located _ _ hlookup).symm.trans hlocation
  rw [AList.lookup_insert] at hlookup
  exact backend.fresh packet.address s.debuggable (Option.some.inj hlookup ▸ hlive)

/-- Where the table has no entry, there is no breakpoint. -/
theorem TableMatches.location_ne (h : TableMatches backend others s) {address : Int} (habsent : address ∉ s.breakpoints) :
    ∀ bkpt ∈ backend.live s.debuggable \ others, backend.location bkpt ≠ address := by
  intro bkpt hbkpt hlocation
  obtain ⟨address', hlookup⟩ := (h.stored bkpt).mp hbkpt
  cases (h.located _ _ hlookup).symm.trans hlocation
  exact habsent (AList.lookup_isSome.mp (by rw [hlookup]; rfl))

/-! ### All packets -/

theorem matchesAfter_cons_ok (hrun : messageReceived debuggable packet.text s = .ok () s')
    {done : List BreakpointPacket} {last : BreakpointPacket} :
    MatchesAfter backend others s (packet :: done) last ↔ MatchesAfter backend others s' done last := by
  have hrunning : Running debuggable (packet :: done) s ↔ Running debuggable done s' := by
    have hbind : (packet :: done).forM (fun packet => messageReceived debuggable packet.text) s =
        done.forM (fun packet => messageReceived debuggable packet.text) s' := bind_ok hrun
    rw [Running, hbind, Running]
  rw [MatchesAfter, List.cons_append, afterPackets_cons_ok hrun, hrunning, MatchesAfter]

theorem matchesAfter_cons_error {e : PyException} (hrun : messageReceived debuggable packet.text s = .error e s)
    (h : TableMatches backend others s) {done : List BreakpointPacket} {last : BreakpointPacket} :
    MatchesAfter backend others s (packet :: done) last := by
  rw [MatchesAfter, List.cons_append, afterPackets_cons_error hrun]
  refine ⟨h, fun _ => ?_⟩
  rintro ⟨s', hrunning⟩
  have hbind : (packet :: done).forM (fun packet => messageReceived debuggable packet.text) s = .error e s :=
    bind_error hrun
  cases hbind.symm.trans hrunning

theorem matchesAfter_iff_undoubled (h : Holds backend others held s) :
    (∀ done packet, done ++ [packet] <+: packets → MatchesAfter backend others s done packet) ↔
      Undoubled held packets := by
  induction packets generalizing held s with
  | nil =>
    refine iff_of_true (fun done packet hpre => ?_) trivial
    exact absurd (List.prefix_nil.mp hpre) (by simp)
  | cons packet packets ih =>
    rw [forall_prefix_cons, Undoubled]
    by_cases hinserts : packet.inserts = true
    · rw [if_pos hinserts]
      by_cases hheld : packet.address ∈ held
      · refine iff_of_false (fun hall => ?_) fun hcond => hcond.1 hheld
        have hrun := insert_ok debuggable s hinserts
        have hafter := hall.1.1
        rw [List.nil_append, afterPackets_cons_ok hrun] at hafter
        exact h.not_table_insert hinserts hheld hrun hafter
      · obtain ⟨s', hrun, h'⟩ := h.insert hinserts hheld
        simp only [matchesAfter_cons_ok hrun, ih h']
        refine and_congr_left' (iff_of_true ?_ hheld)
        rw [MatchesAfter, List.nil_append, afterPackets_cons_ok hrun]
        refine ⟨h'.table, fun hremoves => ?_⟩
        cases hinserts.symm.trans hremoves
    · rw [if_neg hinserts]
      have hinserts : packet.inserts = false := by simpa using hinserts
      by_cases hheld : packet.address ∈ held
      · obtain ⟨s', hrun, h'⟩ := h.remove hinserts hheld
        simp only [matchesAfter_cons_ok hrun, ih h', hheld, true_implies]
        refine and_iff_right ?_
        rw [MatchesAfter, List.nil_append, afterPackets_cons_ok hrun]
        refine ⟨h'.table, fun _ _ => h'.table.location_ne fun hmem => ?_⟩
        exact Finset.notMem_erase _ _ ((h'.mem_iff _).mpr hmem)
      · -- The packet ends the receiver's thread, in a state where the table matches.
        have habsent : packet.address ∉ s.breakpoints := fun hmem => hheld ((h.mem_iff _).mpr hmem)
        have hrun := remove_error debuggable hinserts (AList.lookup_eq_none.mpr habsent)
        refine iff_of_true ⟨?_, fun done last _ => matchesAfter_cons_error hrun h.table⟩ fun hmem => absurd hmem hheld
        rw [MatchesAfter, List.nil_append, afterPackets_cons_error hrun]
        exact ⟨h.table, fun _ _ => h.table.location_ne habsent⟩

/-- The table matches the backend all the time exactly if no breakpoint is inserted where there is one. -/
theorem breakpoints_match_iff (backend : Backend debuggable) (initial : σ) (sent : List (List Char))
    (packets : List BreakpointPacket) :
    (∀ done packet, done ++ [packet] <+: packets →
      MatchesAfter backend (backend.live initial) ⟨initial, ∅, sent⟩ done packet) ↔ Undoubled ∅ packets := by
  refine matchesAfter_iff_undoubled ⟨subset_rfl, ⟨fun bkpt => ?_, fun address bkpt hlookup => ?_⟩, fun address => ?_⟩
  · refine iff_of_false (fun h => h.2 h.1) ?_
    rintro ⟨address, hlookup⟩
    rw [AList.lookup_empty] at hlookup
    cases hlookup
  · rw [AList.lookup_empty] at hlookup
    cases hlookup
  · exact iff_of_false (Finset.notMem_empty _) (AList.notMem_empty _)

end Table

/-! ### A backend that numbers its breakpoints -/

structure NumberedBreakpoints where
  next : Nat
  bkpts : List (Nat × Int)
  below : ∀ bkpt ∈ bkpts, bkpt.1 < next

namespace NumberedBreakpoints

def add (address : Int) (s : NumberedBreakpoints) : NumberedBreakpoints where
  next := s.next + 1
  bkpts := (s.next, address) :: s.bkpts
  below := by
    intro bkpt h
    rcases List.mem_cons.mp h with rfl | h
    · exact Nat.lt_succ_self _
    · exact Nat.lt_succ_of_lt (s.below bkpt h)

def none : NumberedBreakpoints := ⟨0, [], fun _ h => absurd h List.not_mem_nil⟩

def remove (bkpt : Nat × Int) (s : NumberedBreakpoints) : NumberedBreakpoints where
  next := s.next
  bkpts := s.bkpts.filter (· ≠ bkpt)
  below bkpt h := s.below bkpt (List.mem_of_mem_filter h)

def numbered : Debuggable NumberedBreakpoints (Nat × Int) where
  readTypedMemory _ _ := pure 0
  readUntypedMemory _ _ := pure []
  writeTypedMemory _ _ _ := pure ()
  writeUntypedMemory _ _ := pure ()
  getRegister _ := pure 0
  getRegisterFromNr _ := pure 0
  setRegister _ _ := pure ()
  setBreakpoint address s := ((s.next, address), s.add address)
  delete bkpt s := ((), s.remove bkpt)
  cont := pure ()
  stepi := pure ()

def backend : Backend numbered where
  live s := {bkpt | bkpt ∈ s.bkpts}
  location bkpt := bkpt.2
  fresh _ s h := Nat.lt_irrefl _ (s.below _ h)
  created _ s := by
    ext bkpt
    exact List.mem_cons
  located _ _ := rfl
  deleted bkpt s _ := by
    ext bkpt'
    show bkpt' ∈ s.bkpts.filter (· ≠ bkpt) ↔ bkpt' ∈ s.bkpts ∧ bkpt' ∉ ({bkpt} : Set (Nat × Int))
    simp

end NumberedBreakpoints

/-- `Z0,8000,4` -/
def insertAt8000 : BreakpointPacket := ⟨true, "0,8000,4".toList, 0x8000, .inl rfl, rfl, by decide⟩

/-- Of two breakpoints at one address, the table knows only one. -/
theorem not_match_doubled : ¬∀ done packet, done ++ [packet] <+: [insertAt8000, insertAt8000] →
    MatchesAfter NumberedBreakpoints.backend (NumberedBreakpoints.backend.live .none) ⟨.none, ∅, []⟩ done packet := by
  intro h
  have htable := (h [insertAt8000] insertAt8000 (List.prefix_refl _)).1
  rw [List.singleton_append, afterPackets_cons_ok (insert_ok _ _ rfl), afterPackets_cons_ok (insert_ok _ _ rfl)] at htable
  obtain ⟨address, hlookup⟩ := (htable.stored (0, 0x8000)).mp ⟨.tail _ (.head _), List.not_mem_nil⟩
  cases htable.located _ _ hlookup
  cases hlookup

end Avatar.GdbServer
