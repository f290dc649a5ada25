import Avatar.Lib.WordMemory
import Avatar.Theorems.Commands

/-! Software breakpoints of the stub target. Only `cont` writes to memory: the opcode of every breakpoint that is not
    at the program counter. Nothing writes an original instruction back, neither `clear_breakpoint` nor a `cont` from
    a breakpoint that an earlier one has written. -/

namespace Avatar
open Bytes AvatarstubTarget TargetM

def InstructionSet.size : InstructionSet → Nat
  | arm => 4
  | thumb => 2

/-- The instruction that `cont` writes. -/
def InstructionSet.opcode : InstructionSet → List Byte
  | arm => toLE 4 0xe1200071
  | thumb => toLE 2 0xbe01

namespace SoftwareBreakpoints

/-- What is seen of the target through the state of its stub. -/
structure View (σ : Type) where
  memory : σ → WordMemory 32
  pc : σ → BitVec 32
  instructionSet : σ → InstructionSet

variable {σ : Type} {stub : Stub σ} {view : View σ}

/-- The stub writes memory, tells the program counter, and lets the target run, which leaves the memory alone. -/
structure Serves (stub : Stub σ) (view : View σ) : Prop where
  write : ∀ (address : BitVec 32) (size value : Nat) (s : σ), size = 2 ∨ size = 4 → value < 256 ^ size →
    ∃ reply next, stub (0x02 :: (toLE 4 address.toNat ++ [BitVec.ofNat 8 size] ++ toLE size value)) s = (reply, next) ∧
      reply.name = "AVATAR_RPC_DTH_REPLY_OK" ∧ view.memory next = (view.memory s).store address (toLE size value) ∧
      view.pc next = view.pc s ∧ view.instructionSet next = view.instructionSet s
  getPc : ∀ s, ∃ reply next, stub [0x03, 15] s = (reply, next) ∧
    reply.name = "AVATAR_RPC_DTH_REPLY_GET_REGISTER" ∧
    reply.fields.lookup "value" = some (.int (view.pc s).toNat) ∧
    view.memory next = view.memory s ∧ view.pc next = view.pc s ∧ view.instructionSet next = view.instructionSet s
  cont : ∀ s, ∃ reply next, stub [0x40] s = (reply, next) ∧ reply.name = "AVATAR_RPC_DTH_REPLY_OK" ∧
    view.memory next = view.memory s

/-! ### What `cont` does -/

/-- The address of a breakpoint, as the target sees it. -/
def address (b : Sigma fun _ : Int => InstructionSet) : BitVec 32 := BitVec.ofInt 32 b.1

/-- `x` is one of the `size` addresses from `a` on. -/
def Within (a : BitVec 32) (size : Nat) (x : BitVec 32) : Prop := (x - a).toNat < size

instance (a : BitVec 32) (size : Nat) (x : BitVec 32) : Decidable (Within a size x) :=
  inferInstanceAs (Decidable ((x - a).toNat < size))

def Covers (b : Sigma fun _ : Int => InstructionSet) (x : BitVec 32) : Prop := Within (address b) b.2.size x

instance (b : Sigma fun _ : Int => InstructionSet) (x : BitVec 32) : Decidable (Covers b x) :=
  inferInstanceAs (Decidable (Within (address b) b.2.size x))

/-- One breakpoint written into memory, unless it is at the program counter. -/
def patch (pc : BitVec 32) (b : Sigma fun _ : Int => InstructionSet) (m : WordMemory 32) : WordMemory 32 :=
  if b.1 = pc.toNat then m else m.store (address b) b.2.opcode

/-- The addresses of breakpoints are addresses of the target. -/
def Addressable (entries : List (Sigma fun _ : Int => InstructionSet)) : Prop :=
  ∀ b ∈ entries, ∃ a : BitVec 32, b.1 = a.toNat

theorem writeTypedMemory_run (h : Serves stub view) (a : BitVec 32) {size value : Nat} (hsize : size = 2 ∨ size = 4)
    (hvalue : value < 256 ^ size) (link : Link σ) : ∃ link',
      writeTypedMemory stub a.toNat size value link = some (.ok (), link') ∧
      view.memory link'.stub = (view.memory link.stub).store a (toLE size value) := by
  obtain ⟨reply, next, hreply, hname, hmemory, -, -⟩ := h.write a size value link.stub hsize hvalue
  obtain ⟨sent, hcall⟩ := call_of_serializes (serializes_writeMemory a.isLt (.inr hsize) hvalue) hreply hname
  have hresult : Operation.result reply (.writeMemory a.toNat size value) = .ok none := by
    simp only [Operation.result, result_of_ok hname, bind, Except.bind]
  rw [hresult] at hcall
  exact ⟨_, (bind_eq hcall).trans (pure_eq _ _), hmemory⟩

theorem body_run (h : Serves stub view) (pc : BitVec 32) {b : Sigma fun _ : Int => InstructionSet}
    (hb : ∃ a : BitVec 32, b.1 = a.toNat) (link : Link σ) : ∃ link',
      cont.body stub (some (.int pc.toNat)) b.1 b.2 link = some (.ok (), link') ∧
      view.memory link'.stub = patch pc b (view.memory link.stub) := by
  obtain ⟨bkpt_address, bkpt_data⟩ := b
  obtain ⟨a, rfl⟩ := hb
  have haddress : address ⟨(a.toNat : Int), bkpt_data⟩ = a := by
    rw [address, BitVec.ofInt_natCast, BitVec.ofNat_toNat, BitVec.setWidth_eq]
  have hisPc : isPc a.toNat (some (.int pc.toNat)) = true ↔ (a.toNat : Int) = pc.toNat := beq_iff_eq
  unfold cont.body
  by_cases hpc : (a.toNat : Int) = pc.toNat
  · refine ⟨link, ?_, ?_⟩
    · rw [if_pos (hisPc.mpr hpc), pure_eq]
    · rw [patch, if_pos hpc]
  · rw [if_neg (mt hisPc.mp hpc), patch, if_neg hpc, haddress]
    cases bkpt_data with
    | arm => exact writeTypedMemory_run h a (.inr rfl) (by decide) link
    | thumb => exact writeTypedMemory_run h a (.inl rfl) (by decide) link

theorem loop_run (h : Serves stub view) (pc : BitVec 32) {entries : List (Sigma fun _ : Int => InstructionSet)}
    (hentries : Addressable entries) (link : Link σ) : ∃ link',
      cont.loop stub (some (.int pc.toNat)) entries link = some (.ok (), link') ∧
      view.memory link'.stub = entries.foldl (fun m b => patch pc b m) (view.memory link.stub) := by
  induction entries generalizing link with
  | nil => exact ⟨link, rfl, rfl⟩
  | cons b rest ih =>
    obtain ⟨hb, hrest⟩ := List.forall_mem_cons.mp hentries
    obtain ⟨next, hbody, hnext⟩ := body_run h pc hb link
    obtain ⟨link', hloop, hlink'⟩ := ih hrest next
    refine ⟨link', ?_, ?_⟩
    · rw [cont.loop, bind_eq hbody]
      exact hloop
    · rw [hlink', hnext]
      rfl

/-- All breakpoints but the one at the program counter are written, the newest last. -/
theorem cont_run (h : Serves stub view) {breakpoints : Breakpoints} (hentries : Addressable breakpoints.entries)
    (link : Link σ) : ∃ link', AvatarstubTarget.cont stub breakpoints link = some (.ok (), link') ∧
      view.memory link'.stub = breakpoints.entries.foldr (patch (view.pc link.stub)) (view.memory link.stub) := by
  obtain ⟨reply, next, hreply, hname, hvalue, hmemory, -, -⟩ := h.getPc link.stub
  obtain ⟨sent, hcall⟩ : ∃ sent, AvatarProtocol.call stub (.getRegister (15 : Nat)) link =
      some (Operation.result reply (.getRegister (15 : Nat)), ⟨next, sent⟩) :=
    call_of_serializes (serializes_getRegister 15) hreply hname
  have hpc : getRegister stub (.str "pc") link = some (.ok (some (.int (view.pc link.stub).toNat)), ⟨next, sent⟩) := by
    have hresult : Operation.result reply (.getRegister (15 : Nat)) = .ok (some (.int (view.pc link.stub).toNat)) :=
      fieldOf_eq (by rw [hname]; decide) hvalue
    rw [hresult] at hcall
    exact hcall
  have hreverse : Addressable breakpoints.entries.reverse := by
    intro b hb
    exact hentries b (List.mem_reverse.mp hb)
  obtain ⟨patched, hloop, hpatched⟩ := loop_run h (view.pc link.stub) hreverse ⟨next, sent⟩
  obtain ⟨reply', last, hreply', hname', hmemory'⟩ := h.cont patched.stub
  obtain ⟨sent', hresume⟩ := call_of_serializes serializes_cont hreply' hname'
  have hresult : Operation.result reply' .cont = .ok none := by
    simp only [Operation.result, result_of_ok hname', bind, Except.bind]
  rw [hresult] at hresume
  refine ⟨⟨last, sent'⟩, ?_, ?_⟩
  · rw [AvatarstubTarget.cont, bind_eq hpc, bind_eq hloop, bind_eq hresume]
    rfl
  · rw [hmemory', hpatched, hmemory, List.foldl_reverse]

theorem length_opcode (instructionSet : InstructionSet) : instructionSet.opcode.length = instructionSet.size := by
  cases instructionSet with
  | arm => exact length_toLE 4 _
  | thumb => exact length_toLE 2 _

/-- The byte that a breakpoint has at an address that it covers. -/
def opcodeAt (b : Sigma fun _ : Int => InstructionSet) (x : BitVec 32) : Byte :=
  (b.2.opcode[(x - address b).toNat]?).getD 0

/-- The newest breakpoint that is not at the program counter and covers `x`. -/
def newest (pc : BitVec 32) (entries : List (Sigma fun _ : Int => InstructionSet)) (x : BitVec 32) :
    Option (Sigma fun _ : Int => InstructionSet) :=
  entries.find? fun b => b.1 ≠ pc.toNat ∧ Covers b x

theorem patch_apply (pc : BitVec 32) (b : Sigma fun _ : Int => InstructionSet) (m : WordMemory 32)
    (x : BitVec 32) : patch pc b m x = if b.1 ≠ pc.toNat ∧ Covers b x then opcodeAt b x else m x := by
  rw [patch]
  by_cases hpc : b.1 = pc.toNat
  · rw [if_pos hpc, if_neg fun h => h.1 hpc]
  · rw [if_neg hpc]
    by_cases hx : Covers b x
    · have hlt : (x - address b).toNat < b.2.opcode.length := by
        rw [length_opcode]
        exact hx
      rw [if_pos ⟨hpc, hx⟩, WordMemory.store_of_lt _ _ hlt, opcodeAt, List.getElem?_eq_getElem hlt, Option.getD_some]
    · have hle : b.2.opcode.length ≤ (x - address b).toNat := by
        rw [length_opcode]
        exact Nat.not_lt.mp hx
      rw [if_neg fun h => hx h.2, WordMemory.store_of_le _ _ hle]

theorem foldr_patch_apply (pc : BitVec 32) (entries : List (Sigma fun _ : Int => InstructionSet))
    (m : WordMemory 32) (x : BitVec 32) :
    entries.foldr (patch pc) m x = ((newest pc entries x).map (opcodeAt · x)).getD (m x) := by
  induction entries with
  | nil => rfl
  | cons b rest ih =>
    rw [List.foldr_cons, patch_apply, newest, List.find?_cons]
    by_cases hb : b.1 ≠ pc.toNat ∧ Covers b x
    · rw [if_pos hb, decide_eq_true hb]
      rfl
    · rw [if_neg hb, decide_eq_false hb, ih]
      rfl

/-! ### Calls -/

structure Target (σ : Type) where
  breakpoints : Breakpoints
  link : Link σ

def Target.memory (view : View σ) (t : Target σ) : WordMemory 32 := view.memory t.link.stub

inductive Call where
  | setBreakpoint (address : BitVec 32) (thumb : Bool)
  | clearBreakpoint (address : BitVec 32)
  | cont
deriving DecidableEq

/-- A call that raises leaves the breakpoints as they are. -/
def Call.run (stub : Stub σ) : Call → Target σ → Option (Target σ)
  | setBreakpoint a thumb, t =>
    match AvatarstubTarget.setBreakpoint t.breakpoints a.toNat thumb with
    | .ok breakpoints => some { t with breakpoints }
    | .error _ => some t
  | clearBreakpoint a, t =>
    match AvatarstubTarget.clearBreakpoint t.breakpoints a.toNat with
    | .ok breakpoints => some { t with breakpoints }
    | .error _ => some t
  | cont, t => (AvatarstubTarget.cont stub t.breakpoints t.link).map fun r => { t with link := r.2 }

/-- The memory differs from `m` only inside the instructions that have a breakpoint. -/
def Confined (view : View σ) (m : WordMemory 32) (t : Target σ) : Prop :=
  ∀ x, t.memory view x ≠ m x → ∃ b ∈ t.breakpoints.entries, Covers b x

/-- The memory has the instruction of `m` where `t` is about to continue. -/
def Original (view : View σ) (m : WordMemory 32) (t : Target σ) (memory : WordMemory 32) : Prop :=
  ∀ x, Within (view.pc t.link.stub) (view.instructionSet t.link.stub).size x → memory x = m x

/-- After every prefix of the calls the memory is confined, and whenever the target continues, the instruction at its
    program counter is the original one. -/
def LeavesNoTrace (stub : Stub σ) (view : View σ) (m : WordMemory 32) : List Call → Target σ → Prop
  | [], t => Confined view m t
  | call :: calls, t => Confined view m t ∧ ∃ t', call.run stub t = some t' ∧
      (call = .cont → Original view m t (t'.memory view)) ∧ LeavesNoTrace stub view m calls t'

/-- The condition on a call. A breakpoint may be cleared while its instruction is the original one, up to what other
    breakpoints cover. The target may continue where the instruction is the original one, as far as no breakpoint
    covers it that is written now; the newest of these counts. -/
def Call.Careful (view : View σ) (m : WordMemory 32) (t : Target σ) : Call → Prop
  | setBreakpoint _ _ => True
  | clearBreakpoint a => ∀ b ∈ t.breakpoints.entries, b.1 = a.toNat → ∀ x, Covers b x →
      t.memory view x = m x ∨ ∃ b' ∈ t.breakpoints.entries, b'.1 ≠ a.toNat ∧ Covers b' x
  | cont => ∀ x, Within (view.pc t.link.stub) (view.instructionSet t.link.stub).size x →
      match newest (view.pc t.link.stub) t.breakpoints.entries x with
      | some b => opcodeAt b x = m x
      | none => t.memory view x = m x

/-- Every call meets its condition. -/
def AllCareful (stub : Stub σ) (view : View σ) (m : WordMemory 32) : List Call → Target σ → Prop
  | [], _ => True
  | call :: calls, t => call.Careful view m t ∧ ∀ t', call.run stub t = some t' → AllCareful stub view m calls t'

/-! ### Steps -/

section Steps
variable {m : WordMemory 32} {t : Target σ}

/-- Confined, and with addresses that the target has. -/
structure Inv (view : View σ) (m : WordMemory 32) (t : Target σ) : Prop where
  confined : Confined view m t
  addressable : Addressable t.breakpoints.entries

theorem mem_entries_erase {breakpoints : Breakpoints} {a : Int} {b : Sigma fun _ : Int => InstructionSet} :
    b ∈ (breakpoints.erase a).entries ↔ b.1 ≠ a ∧ b ∈ breakpoints.entries := by
  obtain ⟨a', b⟩ := b
  rw [← AList.mem_lookup_iff, ← AList.mem_lookup_iff]
  by_cases h : a' = a
  · subst h
    rw [AList.lookup_erase]
    exact iff_of_false (fun h => by cases h) fun h => h.1 rfl
  · rw [AList.lookup_erase_ne h]
    exact (and_iff_right h).symm

theorem setBreakpoint_step (a : BitVec 32) (thumb : Bool) (h : Inv view m t) :
    ∃ t', (Call.setBreakpoint a thumb).run stub t = some t' ∧ Inv view m t' := by
  rw [Call.run, AvatarstubTarget.setBreakpoint]
  by_cases hmem : (a.toNat : Int) ∈ t.breakpoints
  · rw [if_pos hmem]
    exact ⟨t, rfl, h⟩
  · rw [if_neg hmem]
    have hentries := AList.entries_insert_of_notMem (b := if thumb then InstructionSet.thumb else .arm) hmem
    refine ⟨_, rfl, fun x hx => ?_, ?_⟩
    · obtain ⟨b, hb, hcovers⟩ := h.confined x hx
      rw [hentries]
      exact ⟨b, List.mem_cons_of_mem _ hb, hcovers⟩
    · rw [hentries]
      exact List.forall_mem_cons.mpr ⟨⟨a, rfl⟩, h.addressable⟩

theorem clearBreakpoint_step (a : BitVec 32) (h : Inv view m t) :
    ∃ t', (Call.clearBreakpoint a).run stub t = some t' ∧ Addressable t'.breakpoints.entries ∧
      (Confined view m t' ↔ (Call.clearBreakpoint a).Careful view m t) := by
  rw [Call.run, AvatarstubTarget.clearBreakpoint]
  by_cases hmem : (a.toNat : Int) ∈ t.breakpoints
  · rw [if_pos hmem]
    refine ⟨_, rfl, fun b hb => h.addressable b (mem_entries_erase.mp hb).2, ?_⟩
    constructor
    · intro hconfined b hb hba x hx
      by_cases hsame : t.memory view x = m x
      · exact .inl hsame
      · obtain ⟨b', hb', hcovers⟩ := hconfined x hsame
        exact .inr ⟨b', (mem_entries_erase.mp hb').2, (mem_entries_erase.mp hb').1, hcovers⟩
    · intro hcareful x hx
      obtain ⟨b, hb, hcovers⟩ := h.confined x hx
      by_cases hba : b.1 = a.toNat
      · obtain ⟨b', hb', hne, hcovers'⟩ := (hcareful b hb hba x hcovers).resolve_left hx
        exact ⟨b', mem_entries_erase.mpr ⟨hne, hb'⟩, hcovers'⟩
      · exact ⟨b, mem_entries_erase.mpr ⟨hba, hb⟩, hcovers⟩
  · rw [if_neg hmem]
    refine ⟨t, rfl, h.addressable, iff_of_true h.confined ?_⟩
    rintro ⟨a', b⟩ hb rfl
    exact absurd (AList.lookup_isSome.mp (Option.isSome_iff_exists.mpr ⟨b, AList.mem_lookup_iff.mpr hb⟩)) hmem

theorem cont_step (hstub : Serves stub view) (h : Inv view m t) : ∃ t', Call.cont.run stub t = some t' ∧
    Inv view m t' ∧ (Original view m t (t'.memory view) ↔ Call.cont.Careful view m t) := by
  obtain ⟨link', hrun, hmemory⟩ := cont_run hstub h.addressable t.link
  have hat (x : BitVec 32) : view.memory link'.stub x =
      ((newest (view.pc t.link.stub) t.breakpoints.entries x).map (opcodeAt · x)).getD (t.memory view x) := by
    rw [hmemory, foldr_patch_apply]
    rfl
  refine ⟨{ t with link := link' }, by rw [Call.run, hrun]; rfl, ⟨fun x hx => ?_, h.addressable⟩, ?_⟩
  · change view.memory link'.stub x ≠ m x at hx
    rw [hat] at hx
    cases hnewest : newest (view.pc t.link.stub) t.breakpoints.entries x with
    | none =>
      rw [hnewest] at hx
      exact h.confined x hx
    | some b =>
      have hb := List.find?_some hnewest
      exact ⟨b, List.mem_of_find?_eq_some hnewest, (of_decide_eq_true hb).2⟩
  · refine forall_congr' fun x => imp_congr_right fun _ => ?_
    show view.memory link'.stub x = m x ↔ _
    rw [hat]
    cases newest (view.pc t.link.stub) t.breakpoints.entries x <;> rfl

/-- A call keeps the memory confined, and continues at an original instruction, exactly if it is careful. -/
theorem Call.step (hstub : Serves stub view) (h : Inv view m t) (call : Call) : ∃ t', call.run stub t = some t' ∧
    Addressable t'.breakpoints.entries ∧
    (Confined view m t' ∧ (call = .cont → Original view m t (t'.memory view)) ↔ call.Careful view m t) := by
  cases call with
  | setBreakpoint a thumb =>
    obtain ⟨t', hrun, h'⟩ := setBreakpoint_step a thumb h
    refine ⟨t', hrun, h'.addressable, iff_of_true ⟨h'.confined, fun heq => ?_⟩ trivial⟩
    cases heq
  | clearBreakpoint a =>
    obtain ⟨t', hrun, haddressable, hiff⟩ := clearBreakpoint_step a h
    refine ⟨t', hrun, haddressable, Iff.trans (and_iff_left fun heq => ?_) hiff⟩
    cases heq
  | cont =>
    obtain ⟨t', hrun, h', hiff⟩ := cont_step hstub h
    refine ⟨t', hrun, h'.addressable, Iff.trans ?_ hiff⟩
    rw [and_iff_right h'.confined]
    exact forall_prop_of_true rfl

end Steps

/-! ### Runs -/

theorem LeavesNoTrace.confined {m : WordMemory 32} {calls : List Call} {t : Target σ}
    (h : LeavesNoTrace stub view m calls t) : Confined view m t := by
  cases calls with
  | nil => exact h
  | cons call calls => exact h.1

theorem leavesNoTrace_iff_of_inv (hstub : Serves stub view) {m : WordMemory 32} {calls : List Call} {t : Target σ}
    (h : Inv view m t) : LeavesNoTrace stub view m calls t ↔ AllCareful stub view m calls t := by
  induction calls generalizing t with
  | nil => exact iff_of_true h.confined trivial
  | cons call calls ih =>
    obtain ⟨t', hrun, haddressable, hiff⟩ := Call.step hstub h call
    constructor
    · rintro ⟨-, _, hrun', horiginal, hrest⟩
      cases hrun.symm.trans hrun'
      refine ⟨hiff.mp ⟨hrest.confined, horiginal⟩, fun t'' hrun'' => ?_⟩
      cases hrun.symm.trans hrun''
      exact (ih ⟨hrest.confined, haddressable⟩).mp hrest
    · rintro ⟨hcareful, hrest⟩
      obtain ⟨hconfined, horiginal⟩ := hiff.mpr hcareful
      exact ⟨h.confined, t', hrun, horiginal, (ih ⟨hconfined, haddressable⟩).mpr (hrest t' hrun)⟩

/-- The calls leave no trace exactly if each of them is careful. -/
theorem leavesNoTrace_iff (hstub : Serves stub view) (link : Link σ) (calls : List Call) :
    LeavesNoTrace stub view (view.memory link.stub) calls ⟨∅, link⟩ ↔
      AllCareful stub view (view.memory link.stub) calls ⟨∅, link⟩ := by
  refine leavesNoTrace_iff_of_inv hstub ⟨fun x hx => absurd rfl hx, ?_⟩
  intro b hb
  cases hb

/-! ### A stub that serves -/

/-- A target that stands at address 0 and waits. -/
def waitingStub : Stub (WordMemory 32) := fun body m =>
  match body with
  | 0x02 :: payload =>
    (⟨0xB1, "AVATAR_RPC_DTH_REPLY_OK", []⟩, m.store (BitVec.ofNat 32 (ofLE (payload.take 4))) (payload.drop 5))
  | [0x03, _] => (⟨0x91, "AVATAR_RPC_DTH_REPLY_GET_REGISTER", [("value", .int 0)]⟩, m)
  | _ => (⟨0xB1, "AVATAR_RPC_DTH_REPLY_OK", []⟩, m)

def waitingView : View (WordMemory 32) := ⟨id, fun _ => 0, fun _ => .arm⟩

theorem waitingStub_serves : Serves waitingStub waitingView where
  write a size value m _ _ := by
    have haddress : BitVec.ofNat 32 (ofLE ((toLE 4 a.toNat ++ [BitVec.ofNat 8 size] ++ toLE size value).take 4)) = a := by
      have htake : (toLE 4 a.toNat ++ [BitVec.ofNat 8 size] ++ toLE size value).take 4 = toLE 4 a.toNat := rfl
      rw [htake, ofLE_toLE_of_lt a.isLt, BitVec.ofNat_toNat, BitVec.setWidth_eq]
    have hdata : (toLE 4 a.toNat ++ [BitVec.ofNat 8 size] ++ toLE size value).drop 5 = toLE size value := rfl
    exact ⟨_, _, rfl, rfl, congrArg₂ (WordMemory.store m) haddress hdata, rfl, rfl⟩
  getPc _ := ⟨_, _, rfl, rfl, rfl, rfl, rfl, rfl⟩
  cont _ := ⟨_, _, rfl, rfl, rfl⟩

/-- A breakpoint is set, and cleared before the target continues. -/
theorem leavesNoTrace_iff_untouched :
    LeavesNoTrace waitingStub waitingView (fun _ => 0) [.setBreakpoint 0x8000 false, .clearBreakpoint 0x8000, .cont]
        ⟨∅, ⟨fun _ => 0, []⟩⟩ ↔
      AllCareful waitingStub waitingView (fun _ => 0) [.setBreakpoint 0x8000 false, .clearBreakpoint 0x8000, .cont]
        ⟨∅, ⟨fun _ => 0, []⟩⟩ :=
  leavesNoTrace_iff waitingStub_serves ⟨fun _ => 0, []⟩ _

/-- A breakpoint is set, written by `cont` and cleared: its opcode stays in memory. -/
theorem not_leavesNoTrace : ¬LeavesNoTrace waitingStub waitingView (fun _ => 0)
    [.setBreakpoint 0x8000 false, .cont, .clearBreakpoint 0x8000] ⟨∅, ⟨fun _ => 0, []⟩⟩ := by
  rintro ⟨-, t₁, hset, -, -, t₂, hcont, -, -, t₃, hclear, -, hconfined⟩
  cases hset
  have haddressable : Addressable (AList.insert (0x8000 : Int) InstructionSet.arm ∅ : Breakpoints).entries :=
    List.forall_mem_singleton.mpr ⟨0x8000, rfl⟩
  obtain ⟨link, hrun, hmemory⟩ := cont_run waitingStub_serves haddressable ⟨fun _ => 0, []⟩
  have hcont' : Call.cont.run waitingStub ⟨AList.insert (0x8000 : Int) InstructionSet.arm ∅, ⟨fun _ => 0, []⟩⟩ =
      some ⟨AList.insert (0x8000 : Int) InstructionSet.arm ∅, link⟩ := by
    rw [Call.run, hrun]
    rfl
  cases hcont'.symm.trans hcont
  cases hclear
  have hbyte : waitingView.memory link.stub 0x8000 = 0x71 := by
    rw [hmemory]
    rfl
  obtain ⟨b, hb, -⟩ := hconfined 0x8000 (by
    change waitingView.memory link.stub 0x8000 ≠ 0
    rw [hbyte]
    decide)
  cases hb

end SoftwareBreakpoints

end Avatar
