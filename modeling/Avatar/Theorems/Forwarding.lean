import Avatar.Theorems.DebuggedDevice
import Avatar.Theorems.Monitors
import Avatar.Theorems.RemoteMemory

/-! # The emulator works on the device of the target

A request goes from the bytes of the interface through the emulator, the proxy, the target and its debugger to a gdb, and
the reply goes back. Put together, they let the emulator work on the memory and the registers behind the gdb: what each
request does to them, and what is replied, is what a description says that knows nothing of all this. -/

namespace Avatar
open Bytes StateExcept

namespace S2EEmulator
open S2ERemoteMemoryInterface EmulatorTargetCallProxy GdbserverTarget
open TypedAccess (AccessSize)

/-! ### What requests are for -/

/-- A register value as it is sent -/
def hexWord (v : Json) : Option (BitVec 32) :=
  match hexInt v with
  | .ok n => some (BitVec.ofInt 32 n)
  | .error _ => none

/-- The value that is given to a register. The status register keeps its own. -/
def assigned (members : List (Json.Str × Json)) (name : List Char) : Option (BitVec 32) :=
  if name = "cpsr".toList then none else (members.lookup (name.map Char.toNat)).bind hexWord

def setRegisters (names : List (List Char)) (members : List (Json.Str × Json)) (dev : TargetState) : TargetState :=
  { dev with registers := fun n => ((names[n]?).bind (assigned members)).getD (dev.registers n) }

/-- The values of the registers -/
def cpuState (names : List (List Char)) (dev : TargetState) : List (Json.Str × Json) :=
  cpuStateRegisters.map fun entry =>
    (Json.units entry.2, hexText (dev.registers (names.idxOf entry.1.toList)).toNat)

/-- What a request does to the device, and the reply if there is one. Of several values for a register, the last one
    counts. -/
inductive Serves (names : List (List Char)) (checksum : TargetState → Nat → Nat → Nat) (dev : TargetState) :
    S2ERemoteMemoryInterface.Call → Option (List (Json.Str × Json)) → TargetState → Prop where
  | read (address : BitVec 32) (size : AccessSize) (cpu_state : Json) :
      Serves names checksum dev (.read address.toNat size.bytes cpu_state) (some [(Json.units "reply", str "read"),
        (Json.units "value", hexText (ofLE (dev.memory.load address size.bytes)))]) dev
  | refusedRead {address size : Int} {cpu_state : Json} (hsize : ∀ s : AccessSize, size ≠ s.bytes) :
      Serves names checksum dev (.read address size cpu_state) none dev
  | write (address : BitVec 32) (size : AccessSize) (value : BitVec (8 * size.bytes)) (cpu_state : Json) :
      Serves names checksum dev (.write address.toNat size.bytes value.toNat cpu_state) none
        { dev with memory := dev.memory.store address (toLE size.bytes value.toNat) }
  | refusedWrite {address size value : Int} {cpu_state : Json} (hsize : ∀ s : AccessSize, size ≠ s.bytes) :
      Serves names checksum dev (.write address size value cpu_state) none dev
  | setCpuState (members : List (Json.Str × Json)) :
      Serves names checksum dev (.setCpuState (.obj members)) (some [(Json.units "reply", str "done")])
        (setRegisters names members.reverse dev)
  | getCpuState : Serves names checksum dev .getCpuState
      (some (cpuState names dev ++ [(Json.units "reply", str "get_cpu_state")])) dev
  | cont (dev' : TargetState) : Serves names checksum dev .cont (some [(Json.units "reply", str "done")]) dev'
  | getChecksum (address size : Nat) :
      Serves names checksum dev (.getChecksum address size) (some [(Json.units "reply", str "done"),
        (Json.units "value", hexText8 (checksum dev address size))]) dev

/-- Requests one after the other, and the replies to them -/
inductive ServesAll (names : List (List Char)) (checksum : TargetState → Nat → Nat → Nat) :
    TargetState → List S2ERemoteMemoryInterface.Call → List (List (Json.Str × Json)) → TargetState → Prop where
  | nil (dev : TargetState) : ServesAll names checksum dev [] [] dev
  | cons {dev dev' dev'' : TargetState} {call : S2ERemoteMemoryInterface.Call}
      {calls : List S2ERemoteMemoryInterface.Call} {reply : Option (List (Json.Str × Json))}
      {replies : List (List (Json.Str × Json))} : Serves names checksum dev call reply dev' →
      ServesAll names checksum dev' calls replies dev'' →
      ServesAll names checksum dev (call :: calls) (reply.toList ++ replies) dev''

/-- A member that gives a word to a register, or is about the status register -/
def Settable (words : List (List Char)) (m : Json.Str × Json) : Prop :=
  ∃ name : List Char, m.1 = name.map Char.toNat ∧
    (name = "cpsr".toList ∨ name ∈ words ∧ ∃ value : BitVec 32, IsHex m.2 value.toNat)

/-- The accesses end within the memory, and the values have the sizes that they are written with. Where a size is
    refused, the other numbers may be any. -/
inductive Fits (words : List (List Char)) : S2ERemoteMemoryInterface.Call → Prop where
  | read {address : BitVec 32} {size : AccessSize} (hends : address.toNat + size.bytes ≤ 2 ^ 32) (cpu_state : Json) :
      Fits words (.read address.toNat size.bytes cpu_state)
  | refusedRead {address size : Int} (hsize : ∀ s : AccessSize, size ≠ s.bytes) (cpu_state : Json) :
      Fits words (.read address size cpu_state)
  | write {address : BitVec 32} {size : AccessSize} (hends : address.toNat + size.bytes ≤ 2 ^ 32)
      (value : BitVec (8 * size.bytes)) (cpu_state : Json) :
      Fits words (.write address.toNat size.bytes value.toNat cpu_state)
  | refusedWrite {address size : Int} (hsize : ∀ s : AccessSize, size ≠ s.bytes) (value : Int) (cpu_state : Json) :
      Fits words (.write address size value cpu_state)
  | setCpuState {members : List (Json.Str × Json)} (h : ∀ m ∈ members, Settable words m) :
      Fits words (.setCpuState (.obj members))
  | getCpuState : Fits words .getCpuState
  | cont : Fits words .cont
  | getChecksum {address size : Nat} (hends : address + size ≤ 2 ^ 32) : Fits words (.getChecksum address size)

/-- The events that are posted for a request -/
def requestEvents : S2ERemoteMemoryInterface.Call → List (Event RequestParams)
  | .read address size cpu_state => [⟨[.requestReadMemoryValue], .emulator, some ⟨address, size, none, cpu_state⟩⟩]
  | .write address size value cpu_state =>
    [⟨[.requestWriteMemoryValue], .emulator, some ⟨address, size, some value, cpu_state⟩⟩]
  | _ => []

/-- The line of a reply -/
def line (reply : List (Json.Str × Json)) : List Char := (Json.obj reply).dumps ++ ['\n']

/-! ### Dictionaries -/

section Entries
variable {members : List (Json.Str × Json)} {m : Json.Str × Json}

theorem entries_append (members : List (Json.Str × Json)) (m : Json.Str × Json) :
    entries (members ++ [m]) = if m.1 ∈ (entries members).map Prod.fst then
      (entries members).map fun entry => if entry.1 = m.1 then m else entry else entries members ++ [m] := by
  simp only [← List.contains_iff_mem]
  rw [entries, List.foldl_append]
  rfl

theorem lookup_member (m : Json.Str × Json) (dict : List (Json.Str × Json)) (k : Json.Str) :
    (m :: dict).lookup k = if k = m.1 then some m.2 else dict.lookup k := by
  obtain ⟨key, v⟩ := m
  by_cases hk : k = key
  · rw [hk, List.lookup_cons_self, if_pos rfl]
  · rw [List.lookup_cons, beq_false_of_ne hk, if_neg hk]

theorem lookup_replace (dict : List (Json.Str × Json)) (m : Json.Str × Json) (k : Json.Str) :
    (dict.map fun entry => if entry.1 = m.1 then m else entry).lookup k =
      if k = m.1 then (if m.1 ∈ dict.map Prod.fst then some m.2 else none) else dict.lookup k := by
  induction dict with
  | nil => simp
  | cons entry dict ih =>
    rw [List.map_cons, lookup_member, lookup_member, ih]
    by_cases hkey : entry.1 = m.1
    · rw [if_pos hkey, hkey]
      by_cases hk : k = m.1 <;> simp [hk, hkey]
    · rw [if_neg hkey]
      by_cases hk : k = m.1
      · simp [hk, Ne.symm hkey, List.map_cons, List.mem_cons, -List.mem_map]
      · simp [hk]

theorem keys_replace (dict : List (Json.Str × Json)) (m : Json.Str × Json) :
    (dict.map fun entry => if entry.1 = m.1 then m else entry).map Prod.fst = dict.map Prod.fst := by
  rw [List.map_map]
  refine List.map_congr_left fun entry _ => ?_
  by_cases h : entry.1 = m.1 <;> simp [h]

/-- Every key comes once, with its last value. -/
theorem entries_spec (members : List (Json.Str × Json)) :
    ((entries members).map Prod.fst).Nodup ∧ (∀ k, (entries members).lookup k = members.reverse.lookup k) ∧
      ∀ m ∈ entries members, m ∈ members := by
  induction members using List.reverseRecOn with
  | nil => exact ⟨List.nodup_nil, fun _ => rfl, fun _ h => h⟩
  | append_singleton members m ih =>
    obtain ⟨hnodup, hlookup, hmem⟩ := ih
    have hreverse : (members ++ [m]).reverse = m :: members.reverse := by simp
    rw [entries_append, hreverse]
    by_cases h : m.1 ∈ (entries members).map Prod.fst
    · rw [if_pos h]
      refine ⟨(keys_replace _ m).symm ▸ hnodup, fun k => ?_, fun e he => ?_⟩
      · rw [lookup_replace, if_pos h, hlookup, lookup_member]
      · obtain ⟨entry, hentry, rfl⟩ := List.mem_map.mp he
        by_cases hkey : entry.1 = m.1
        · simp [hkey]
        · simp [hkey, hmem entry hentry]
    · rw [if_neg h]
      refine ⟨?_, fun k => ?_, fun e he => ?_⟩
      · rw [List.map_append, List.map_singleton, ← List.concat_eq_append]
        exact hnodup.concat h
      · rw [List.lookup_append, hlookup, lookup_member, lookup_member]
        by_cases hk : k = m.1
        · have hnone : members.reverse.lookup k = none := by
            rw [← hlookup, List.lookup_eq_none_iff]
            intro e he
            exact bne_iff_ne.mpr fun heq => h (hk ▸ heq ▸ List.mem_map_of_mem he)
          rw [hnone, Option.none_or, if_pos hk, if_pos hk]
        · rw [if_neg hk, if_neg hk, List.lookup_nil, Option.or_none]
      · rcases List.mem_append.mp he with he | he
        · exact List.mem_append_left _ (hmem e he)
        · exact List.mem_append_right _ he

end Entries

/-! ### Registers -/

section Registers
variable {names : List (List Char)} {name : List Char} {members : List (Json.Str × Json)} {m : Json.Str × Json}
  {value : BitVec 32} {n : Nat}

/-- A register has one position. -/
theorem eq_idxOf (hdistinct : (names.filter (· ≠ [])).Nodup) (hn : names[n]? = some name) (hname : name ≠ []) :
    n = names.idxOf name := by
  have hlookup := lookup_nameTable hdistinct hn hname
  rw [lookup_nameTable hdistinct (getElem?_idxOf (List.mem_of_getElem? hn)) hname] at hlookup
  exact (Option.some.inj hlookup).symm

theorem hexWord_of_isHex {v : Json} (h : IsHex v value.toNat) : hexWord v = some value := by
  rw [hexWord, hexInt_of_isHex h]
  simp

theorem assigned_append (hkey : m.1 = name.map Char.toNat) (hnew : m.1 ∉ members.map Prod.fst)
    (hvalue : hexWord m.2 = some value) (hcpsr : name ≠ "cpsr".toList) (name' : List Char) :
    assigned (members ++ [m]) name' = if name' = name then some value else assigned members name' := by
  rw [assigned, assigned, List.lookup_append, lookup_member, List.lookup_nil]
  by_cases h : name' = name
  · have hnone : members.lookup m.1 = none := by
      rw [List.lookup_eq_none_iff]
      intro e he
      exact bne_iff_ne.mpr fun heq => hnew (heq ▸ List.mem_map_of_mem he)
    rw [if_pos h, h, if_neg hcpsr, ← hkey, hnone, if_pos rfl]
    exact hvalue
  · have hne : name'.map Char.toNat ≠ m.1 := by
      rw [hkey]
      exact fun heq => h (List.map_injective_iff.mpr (fun a b hab => Char.toNat_inj.mp hab) heq)
    rw [if_neg h, if_neg hne, Option.or_none]

theorem assigned_cpsr (hkey : m.1 = "cpsr".toList.map Char.toNat) (name' : List Char) :
    assigned (members ++ [m]) name' = assigned members name' := by
  rw [assigned, assigned, List.lookup_append, lookup_member, List.lookup_nil]
  by_cases h : name' = "cpsr".toList
  · rw [if_pos h, if_pos h]
  · have hne : name'.map Char.toNat ≠ m.1 := by
      rw [hkey]
      exact fun heq => h (List.map_injective_iff.mpr (fun a b hab => Char.toNat_inj.mp hab) heq)
    rw [if_neg hne, Option.or_none]

theorem setRegisters_cpsr (hkey : m.1 = "cpsr".toList.map Char.toNat) (dev : TargetState) :
    setRegisters names (members ++ [m]) dev = setRegisters names members dev := by
  have h : assigned (members ++ [m]) = assigned members := funext (assigned_cpsr hkey)
  rw [setRegisters, setRegisters, h]

theorem setRegisters_assign (hdistinct : (names.filter (· ≠ [])).Nodup) (hmem : name ∈ names) (hname : name ≠ [])
    (hkey : m.1 = name.map Char.toNat) (hnew : m.1 ∉ members.map Prod.fst) (hvalue : hexWord m.2 = some value)
    (hcpsr : name ≠ "cpsr".toList) (dev : TargetState) :
    setRegisters names (members ++ [m]) dev = (setRegisters names members dev).assign names name value := by
  have hassigned := assigned_append hkey hnew hvalue hcpsr
  refine congrArg (TargetState.mk dev.memory) (funext fun n => ?_)
  rw [Function.update_apply]
  show ((names[n]?).bind _).getD _ = if _ then _ else ((names[n]?).bind _).getD _
  by_cases h : n = names.idxOf name
  · rw [if_pos h, h, getElem?_idxOf hmem, Option.bind_some, hassigned, if_pos rfl, Option.getD_some]
  · rw [if_neg h]
    cases hn : names[n]? with
    | none => rfl
    | some name' =>
      have hne : name' ≠ name := by
        rintro rfl
        exact h (eq_idxOf hdistinct hn hname)
      rw [Option.bind_some, Option.bind_some, hassigned, if_neg hne]

end Registers

/-! ### The handlers -/

section Handlers
variable {σ : Type} {gdb running : Gdb σ} {names words : List (List Char)} {device : σ → TargetState}
  {checksum : TargetState → Nat → Nat → Nat} {dev : TargetState} {s : Forwarding Unit (GdbDebugger σ)}

abbrev Forwards (σ : Type) := ForwardM DebuggerError Unit (GdbDebugger σ)

/-- The events that have been posted, and the device behind the target -/
def Reaches (names : List (List Char)) (device : σ → TargetState) (posted : List (Event RequestParams))
    (dev : TargetState) (s : Forwarding Unit (GdbDebugger σ)) : Prop := s.posted = posted ∧ Holds names device dev s.target

theorem onTarget_returns {α : Type} {x : GdbDebugger.DebuggerM σ α} {Q : α → GdbDebugger σ → Prop}
    (h : Returns x s.target Q) :
    Returns (onTarget x : Forwards σ α) s fun a s' => s'.posted = s.posted ∧ Q a s'.target := by
  obtain ⟨a, target, hx, hQ⟩ := h
  refine ⟨a, { s with target }, ?_, rfl, hQ⟩
  rw [onTarget, hx]

theorem onTarget_error {α : Type} {x : GdbDebugger.DebuggerM σ α} {e : DebuggerError}
    (h : x s.target = .error e s.target) : (onTarget x : Forwards σ α) s = .error e s := by
  rw [onTarget, h]

variable (gdb running) in
/-- The emulator of a target behind a gdb, without monitors -/
def emulator : Emulator DebuggerError Unit (GdbDebugger σ) :=
  EmulatorTargetCallProxy.connect .python (alone (requested gdb running))

/-- The event has been posted, and the handler is that of the proxy. -/
theorem notifyRead_eq (gdb running : Gdb σ) (s : Forwarding Unit (GdbDebugger σ)) (params : RequestParams) :
    (emulator gdb running).notifyReadRequestHandler .python params s =
      onTarget (readTypedMemory gdb params.address params.size)
        { s with posted := s.posted ++ [⟨[.requestReadMemoryValue], .emulator, some params⟩] } := by
  show ((onTarget (readTypedMemory gdb params.address params.size) : Forwards σ Int) >>= fun value => pure value) _ = _
  rw [bind_pure]

theorem notifyWrite_eq (gdb running : Gdb σ) (s : Forwarding Unit (GdbDebugger σ)) (params : RequestParams) {value : Int}
    (h : params.value = some value) :
    (emulator gdb running).notifyWriteRequestHandler .python params s =
      onTarget (writeTypedMemory gdb params.address params.size value)
        { s with posted := s.posted ++ [⟨[.requestWriteMemoryValue], .emulator, some params⟩] } := by
  obtain ⟨address, size, v, cpu_state⟩ := params
  cases h
  show ((onTarget (writeTypedMemory gdb address size value) : Forwards σ Unit) >>= fun _ => pure ()) _ = _
  rw [bind_pure]

theorem setCpuState_returns (h : Debugs gdb running names words device checksum) {posted : List (Event RequestParams)}
    (hs : Reaches names device posted dev s) {members : List (Json.Str × Json)}
    (hset : ∀ m ∈ members, Settable words m) :
    Returns ((emulator gdb running).notifySetCpuStateHandler .python (.obj members)) s fun _ =>
      Reaches names device posted (setRegisters names members.reverse dev) := by
  obtain ⟨hnodup, hlookup, hmem⟩ := entries_spec members
  have hlast : setRegisters names (entries members) dev = setRegisters names members.reverse dev := by
    have hassigned : assigned (entries members) = assigned members.reverse := by
      funext name
      rw [assigned, assigned, hlookup]
    rw [setRegisters, setRegisters, hassigned]
  rw [← hlast]
  show Returns (ForM.forM (entries members) _) s _
  refine Returns.forM (I := fun done => Reaches names device posted (setRegisters names done dev)) ?_ ?_
  · intro done m s' hprefix hinv
    obtain ⟨todo, heq⟩ := hprefix
    have hentry : m ∈ entries members := by
      rw [← heq]
      simp
    have hnew : m.1 ∉ done.map Prod.fst := by
      rw [← heq, List.map_append, List.map_append, List.map_singleton, List.append_assoc, List.nodup_append] at hnodup
      exact fun hmem => hnodup.2.2 _ hmem _ (.head _) rfl
    obtain ⟨name, hkey, hvalue⟩ := hset m (hmem m hentry)
    show Returns (if m.1 = Json.units "cpsr" then pure () else raises .python (hexInt m.2) >>= fun value =>
      onTarget (GdbserverTarget.setRegister gdb (.name (String.ofList (m.1.map Char.ofNat))) value)) s' _
    by_cases hcpsr : name = "cpsr".toList
    · have hunits : m.1 = Json.units "cpsr" := by rw [hkey, hcpsr]; rfl
      rw [if_pos hunits, setRegisters_cpsr (hcpsr ▸ hkey) dev]
      exact Returns.pure hinv
    · obtain ⟨hword, value, hvalue⟩ := hvalue.resolve_left hcpsr
      obtain ⟨hlisted, hname⟩ := h.listed name hword
      have hunits : m.1 ≠ Json.units "cpsr" := by
        rw [hkey]
        exact fun h => hcpsr (List.map_injective_iff.mpr (fun a b hab => Char.toNat_inj.mp hab) h)
      have hreg : (String.ofList (m.1.map Char.ofNat)).toList = name := by
        rw [hkey, List.map_map, String.toList_ofList]
        exact (List.map_congr_left fun c _ => Char.ofNat_toNat c).trans (List.map_id name)
      rw [if_neg hunits]
      refine Returns.bind (Q := fun (v : Int) s'' => v = value.toNat ∧ s'' = s') ⟨value.toNat, s', ?_, rfl, rfl⟩ ?_
      · rw [raises, hexInt_of_isHex hvalue]
        rfl
      · rintro _ _ ⟨rfl, rfl⟩
        refine (onTarget_returns (setRegister_returns h hinv.2 (by rwa [hreg]) value)).mono
          fun _ s'' hs'' => ⟨hs''.1.trans hinv.1, ?_⟩
        rw [setRegisters_assign h.distinct hlisted hname hkey hnew (hexWord_of_isHex hvalue) hcpsr dev]
        rw [hreg] at hs''
        exact hs''.2
  · have hnone : setRegisters names [] dev = dev := by
      refine congrArg (TargetState.mk dev.memory) (funext fun n => ?_)
      cases names[n]? with
      | none => rfl
      | some name => by_cases hname : name = "cpsr".toList <;> simp [assigned, hname]
    show Reaches names device posted (setRegisters names [] dev) s
    rw [hnone]
    exact hs

theorem getCpuState_returns (h : Debugs gdb running names words device checksum) {posted : List (Event RequestParams)}
    (hs : Reaches names device posted dev s) :
    Returns ((emulator gdb running).notifyGetCpuStateHandler .python) s fun ret s' =>
      ret = cpuState names dev ∧ Reaches names device posted dev s' := by
  have hread : ∀ entries : List (String × String), (∀ entry ∈ entries, entry.1.toList ∈ words) →
      ∀ s, Reaches names device posted dev s →
      Returns (entries.mapM fun entry => do
        let val ← onTarget (GdbserverTarget.getRegister gdb entry.1)
        return (Json.units entry.2, EmulatorTargetCallProxy.hex val) : Forwards σ _) s fun ret s' =>
          ret = entries.map (fun entry =>
            (Json.units entry.2, hexText (dev.registers (names.idxOf entry.1.toList)).toNat)) ∧
            Reaches names device posted dev s' := by
    intro entries
    induction entries with
    | nil => exact fun _ s hs => Returns.pure ⟨rfl, hs⟩
    | cons entry entries ih =>
      intro hentries s hs
      have hword := hentries entry (.head _)
      rw [List.mapM_cons]
      refine Returns.bind (Q := fun v s' => v = (Json.units entry.2,
        hexText (dev.registers (names.idxOf entry.1.toList)).toNat) ∧ Reaches names device posted dev s') ?_ ?_
      · refine Returns.bind (onTarget_returns (getRegister_returns h hs.2 (getElem?_idxOf (h.listed _ hword).1) hword)) ?_
        rintro _ s' ⟨hposted, rfl, hs'⟩
        exact Returns.pure ⟨rfl, hposted.trans hs.1, hs'⟩
      · rintro _ s' ⟨rfl, hs'⟩
        refine Returns.bind (ih (fun entry hentry => hentries entry (.tail _ hentry)) s' hs') ?_
        rintro _ s'' ⟨rfl, hs''⟩
        exact Returns.pure ⟨rfl, hs''⟩
  exact hread cpuStateRegisters (fun entry hentry => h.core _ (List.mem_map_of_mem hentry)) s hs

end Handlers

/-! ### One request -/

section Requests
variable {σ : Type} {gdb running : Gdb σ} {names words : List (List Char)} {device : σ → TargetState}
  {checksum : TargetState → Nat → Nat → Nat} {dev dev' : TargetState} {s s' : RunState (Forwarding Unit (GdbDebugger σ))}
  {call : S2ERemoteMemoryInterface.Call} {members : List (Json.Str × Json)}

/-- What a request has done: the reply, the events and the device -/
structure Did (names : List (List Char)) (device : σ → TargetState) (s s' : RunState (Forwarding Unit (GdbDebugger σ)))
    (reply : Option (List (Json.Str × Json))) (events : List (Event RequestParams)) (dev : TargetState) : Prop where
  buffer : s'.buffer = s.buffer
  sent : s'.sent = s.sent ++ reply.toList.map line
  reaches : Reaches names device (s.handled.posted ++ events) dev s'.handled

theorem callHandler_logged {α : Type} {x : Forwards σ α} {a : α} {handled : Forwarding Unit (GdbDebugger σ)}
    (hx : x s.handled = .ok a handled) :
    callHandler call (some (logged x)) s = .ok a { s with handled, calls := s.calls ++ [⟨call, true⟩] } := by
  rw [callHandler, logged, hx]

theorem did_reply {α : Type} {x : Forwards σ α} {reply : α → List (Json.Str × Json)}
    {answer : List (Json.Str × Json)} {events : List (Event RequestParams)}
    (h : Returns x s.handled fun a handled => reply a = answer ∧
      Reaches names device (s.handled.posted ++ events) dev handled) :
    Did names device s (final ((callHandler call (some (logged x)) >>= fun a => sendReply (reply a)) s)) (some answer)
      events dev := by
  obtain ⟨a, handled, hx, rfl, hreaches⟩ := h
  rw [bind_ok (callHandler_logged hx)]
  exact ⟨rfl, rfl, hreaches⟩

theorem did_silent {x : Forwards σ Unit} {events : List (Event RequestParams)}
    (h : Returns x s.handled fun _ => Reaches names device (s.handled.posted ++ events) dev) :
    Did names device s (final (callHandler call (some (logged x)) s)) none events dev := by
  obtain ⟨a, handled, hx, hreaches⟩ := h
  rw [callHandler_logged hx]
  exact ⟨rfl, (List.append_nil _).symm, hreaches⟩

/-- A call that raises is not answered. -/
theorem did_error {α : Type} {x : Forwards σ α} {f : α → RunM (Forwarding Unit (GdbDebugger σ)) Unit} {e : DebuggerError}
    {handled : Forwarding Unit (GdbDebugger σ)} {events : List (Event RequestParams)} (hx : x s.handled = .error e handled)
    (h : Reaches names device (s.handled.posted ++ events) dev handled) :
    Did names device s (final ((callHandler call (some (logged x)) >>= f) s)) none events dev := by
  have hcall : callHandler call (some (logged x)) s =
      .error .valueError { s with handled, calls := s.calls ++ [⟨call, false⟩] } := by
    rw [callHandler, logged, hx]
  rw [bind_error hcall]
  exact ⟨rfl, (List.append_nil _).symm, h⟩

/-- The handlers of a target behind a gdb, without monitors -/
abbrev handlers (gdb running : Gdb σ) : Handlers (Forwarding Unit (GdbDebugger σ)) :=
  startedHandlers (requested gdb running) fun _ => []

theorem handle_serves (h : Debugs gdb running names words device checksum)
    (hs : Holds names device dev s.handled.target) (hasks : Asks members call) (hfits : Fits words call) :
    ∃ reply dev', Serves names checksum dev call reply dev' ∧
      Did names device s (final (handle (handlers gdb running) (.obj members) s)) reply (requestEvents call) dev' := by
  cases hasks with
  | @read address size cpu_state hcmd haddress hsize hstate =>
    rw [handle_read _ s hcmd haddress hsize hstate]
    cases hfits with
    | @read address size hends =>
      refine ⟨_, _, .read address size cpu_state,
        did_reply (x := (emulator gdb running).notifyReadRequestHandler .python _) ?_⟩
      rw [Returns, notifyRead_eq]
      refine (onTarget_returns (s := ⟨s.handled.posted ++ requestEvents (.read address.toNat size.bytes cpu_state), (),
        s.handled.target⟩) (readTypedMemory_returns h hs hends)).mono ?_
      rintro _ handled ⟨hposted, rfl, hholds⟩
      exact ⟨rfl, hposted, hholds⟩
    | refusedRead hrefused =>
      have hraises := (notifyRead_eq gdb running s.handled
        ⟨address, size, none, cpu_state⟩).trans (onTarget_error (readTypedMemory_error hrefused _ _))
      exact ⟨none, dev, .refusedRead hrefused, did_error hraises ⟨rfl, hs⟩⟩
  | @write address size value cpu_state hcmd haddress hsize hvalue hstate =>
    rw [handle_write _ s hcmd haddress hsize hvalue hstate]
    cases hfits with
    | @write address size hends value =>
      refine ⟨_, _, .write address size value cpu_state,
        did_silent (x := (emulator gdb running).notifyWriteRequestHandler .python _) ?_⟩
      rw [Returns, notifyWrite_eq _ _ _ _ rfl]
      exact onTarget_returns (writeTypedMemory_returns h hs hends value)
    | refusedWrite hrefused =>
      have hraises := (notifyWrite_eq gdb running s.handled
        ⟨address, size, some value, cpu_state⟩ rfl).trans (onTarget_error (writeTypedMemory_error hrefused _ _ _))
      refine ⟨none, dev, .refusedWrite hrefused, ?_⟩
      rw [← bind_pure (callHandler _ _)]
      exact did_error hraises ⟨rfl, hs⟩
  | setCpuState hcmd hstate =>
    rw [handle_setCpuState _ s hcmd hstate]
    cases hfits with
    | @setCpuState members hset =>
      refine ⟨_, _, .setCpuState members, did_reply ?_⟩
      exact (setCpuState_returns h ⟨(List.append_nil _).symm, hs⟩ hset).mono fun _ _ hs' => ⟨rfl, hs'⟩
  | getCpuState hcmd =>
    rw [handle_getCpuState _ s hcmd]
    refine ⟨_, _, .getCpuState, did_reply ?_⟩
    refine (getCpuState_returns h ⟨(List.append_nil _).symm, hs⟩).mono ?_
    rintro _ handled ⟨rfl, hs'⟩
    refine ⟨?_, hs'⟩
    have hkeys : Json.units "reply" ∉ cpuStateRegisters.map fun entry => Json.units entry.2 := by decide
    rw [setItem, if_neg (by rw [cpuState, List.map_map]; exact hkeys)]
  | cont hcmd =>
    rw [handle_continue _ s hcmd]
    obtain ⟨a, target, hrun, dev', hs'⟩ := cont_returns h hs
    refine ⟨_, dev', .cont dev', did_reply ?_⟩
    refine (onTarget_returns (s := s.handled) (x := cont running) (Q := fun _ => Holds names device dev')
      ⟨a, target, hrun, hs'⟩).mono fun _ handled hs' => ⟨rfl, hs'.1.trans (List.append_nil _).symm, hs'.2⟩
  | getChecksum hcmd haddress hsize =>
    rw [handle_getChecksum _ s hcmd haddress hsize]
    cases hfits with
    | @getChecksum address size hends =>
      refine ⟨_, _, .getChecksum address size, did_reply ?_⟩
      refine (onTarget_returns (getChecksum_returns h hs hends)).mono ?_
      rintro _ handled ⟨hposted, rfl, hs'⟩
      exact ⟨rfl, hposted.trans (List.append_nil _).symm, hs'⟩

/-! ### Every run -/

theorem foldlM_serves (h : Debugs gdb running names words device checksum) (messages : List Message)
    (hfits : ∀ m ∈ messages, Fits words m.call) (hbuffer : s.buffer = []) (hs : Holds names device dev s.handled.target) :
    ∃ s' replies dev',
      ((messages.flatMap fun m => m.space ++ m.text).map Ascii.byte).foldlM (RunState.next (handlers gdb running)) s =
        .ok s' ∧
      ServesAll names checksum dev (messages.map (·.call)) replies dev' ∧ s'.buffer = [] ∧
      s'.sent = s.sent ++ replies.map line ∧
      Reaches names device (s.handled.posted ++ messages.flatMap (requestEvents ·.call)) dev' s'.handled := by
  induction messages generalizing s dev with
  | nil => exact ⟨s, [], dev, rfl, .nil dev, hbuffer, (List.append_nil _).symm, (List.append_nil _).symm, hs⟩
  | cons m messages ih =>
    have hblank : Json.Space s.buffer := by simp [hbuffer, Json.Space]
    obtain ⟨reply, dev₁, hserves, hdid⟩ := handle_serves
      (s := { s with buffer := [], decoded := s.decoded ++ [.obj m.members] }) h hs m.asks (hfits m (.head _))
    obtain ⟨s', replies, dev', hrun, hall, hbuffer', hsent, hreaches⟩ :=
      ih (fun m hm => hfits m (.tail _ hm)) hdid.buffer hdid.reaches.2
    refine ⟨s', reply.toList ++ replies, dev', ?_, .cons hserves hall, hbuffer', ?_, ?_⟩
    · rw [List.flatMap_cons, List.map_append, Traversal.foldlM_append_ok (foldlM_message_eq m hblank), hrun]
    · rw [hsent, hdid.sent, List.map_append, List.append_assoc]
    · rw [List.flatMap_cons, ← List.append_assoc]
      rw [hdid.reaches.1] at hreaches
      exact hreaches

/-- The emulator works on the device behind the gdb. Whatever requests it sends, with whatever monitors that only watch:
    each request does to the device what it is for, in the order in which they come, each reply is the one that is due, and
    an event is posted for each access to the memory. -/
theorem forwarding_refines {μ : Type} {monitor_hooks : MonitorEvent → List (Monitor DebuggerError μ)}
    (h : Debugs gdb running names words device checksum)
    (hwatch : ∀ event, ∀ monitor ∈ monitor_hooks event, monitor.Watches event) (handled : Forwarding μ (GdbDebugger σ))
    (hcached : Cached names handled.target.register_names) (messages : List Message)
    (hfits : ∀ m ∈ messages, Fits words m.call) (trailing : List Char) (htrailing : Json.Space trailing) :
    ∃ s' replies, run (startedHandlers (requested gdb running) monitor_hooks) handled
        (((messages.flatMap fun m => m.space ++ m.text) ++ trailing).map Ascii.byte) = .ok s' ∧
      ServesAll names checksum (device handled.target.gdb) (messages.map (·.call)) replies
        (device s'.handled.target.gdb) ∧
      s'.sent = replies.map line ∧ s'.handled.posted = handled.posted ++ messages.flatMap (requestEvents ·.call) := by
  obtain ⟨s₀, replies, dev', hrun, hall, hbuffer, hsent, hposted, hdevice, -⟩ :=
    foldlM_serves h messages hfits (s := .init handled.unwatched) rfl ⟨rfl, hcached⟩
  have halone : run (handlers gdb running) handled.unwatched
      (((messages.flatMap fun m => m.space ++ m.text) ++ trailing).map Ascii.byte) =
        .ok { s₀ with buffer := s₀.buffer ++ trailing } := by
    rw [run, List.map_append, Traversal.foldlM_append_ok hrun]
    exact foldlM_space hbuffer htrailing
  have hwatched : (run (startedHandlers (requested gdb running) monitor_hooks) handled
      (((messages.flatMap fun m => m.space ++ m.text) ++ trailing).map Ascii.byte)).map
        (RunState.map Forwarding.unwatched) = _ := run_unwatched hwatch handled _
  rw [halone] at hwatched
  obtain ⟨s', hs', heq⟩ := exists_of_map_ok hwatched
  have hhandled : s'.handled.unwatched = s₀.handled := congrArg RunState.handled heq
  have htarget : s'.handled.target = s₀.handled.target := congrArg Forwarding.target hhandled
  refine ⟨s', replies, hs', ?_, (congrArg RunState.sent heq).trans hsent,
    (congrArg Forwarding.posted hhandled).trans hposted⟩
  rw [htarget, hdevice]
  exact hall

end Requests

def writeMembers : List (Json.Str × Json) :=
  [(Json.units "cmd", str "write"),
    (Json.units "params", .obj [(Json.units "address", str "0x1f"), (Json.units "size", str "4"),
      (Json.units "value", str "0x11223344")]),
    (Json.units "cpu_state", .null)]

def writeMessage : Message where
  space := " ".toList
  text := ("\x7b\"cmd\":\"write\",\"params\":\x7b\"address\":\"0x1f\",\"size\":\"4\"," ++
    "\"value\":\"0x11223344\"\x7d,\"cpu_state\":null\x7d").toList
  members := writeMembers
  call := .write 31 4 0x11223344 .null
  blank := by decide
  isText := ⟨3, Json.text_of_value rfl⟩
  ascii := by decide
  asks := by
    have hparams : Has writeMembers "params" (.obj [(Json.units "address", str "0x1f"), (Json.units "size", str "4"),
        (Json.units "value", str "0x11223344")]) := ⟨[_], [_], rfl, by decide⟩
    refine .write ⟨[], [_, _], rfl, by decide⟩ ⟨_, _, hparams, ⟨[], [_, _], rfl, by decide⟩, "0x1f".toList, rfl, by decide⟩
      ⟨_, _, hparams, ⟨[_], [_], rfl, by decide⟩, "4".toList, rfl, by decide⟩
      ⟨_, _, hparams, ⟨[_, _], [], rfl, by decide⟩, "0x11223344".toList, rfl, by decide⟩ ⟨[_, _], [], rfl, by decide⟩

def stateMembers : List (Json.Str × Json) :=
  [(Json.units "r0", str "0x7"), (Json.units "cpsr", str "0x10"), (Json.units "r0", str "0x5")]

/-- A request with two values for a register -/
def setCpuStateMessage : Message where
  space := "\n".toList
  text := ("\x7b\"cmd\":\"set_cpu_state\",\"cpu_state\":" ++
    "\x7b\"r0\":\"0x7\",\"cpsr\":\"0x10\",\"r0\":\"0x5\"\x7d\x7d").toList
  members := [(Json.units "cmd", str "set_cpu_state"), (Json.units "cpu_state", .obj stateMembers)]
  call := .setCpuState (.obj stateMembers)
  blank := by decide
  isText := ⟨3, Json.text_of_value rfl⟩
  ascii := by decide
  asks := .setCpuState ⟨[], [_], rfl, by decide⟩ ⟨[_], [], rfl, by decide⟩

theorem stateMembers_settable : ∀ m ∈ stateMembers, Settable coreNames m := by
  intro m hm
  rcases List.mem_cons.mp hm with rfl | hm
  · exact ⟨"r0".toList, rfl, .inr ⟨by decide, 7, "0x7".toList, rfl, by decide⟩⟩
  rcases List.mem_pair.mp hm with rfl | rfl
  · exact ⟨"cpsr".toList, rfl, .inl rfl⟩
  · exact ⟨"r0".toList, rfl, .inr ⟨by decide, 5, "0x5".toList, rfl, by decide⟩⟩

def deviceMessages : List Message := [setCpuStateMessage, writeMessage, readMessage, continueMessage]

/-- A device whose memory and registers are zero, and a count of the calls of monitors -/
def zeroDevice : Forwarding Nat (GdbDebugger TargetState) := ⟨[], 0, ⟨⟨fun _ => 0, fun _ => 0⟩, none⟩⟩

theorem forwarding_refines_read_continue :
    ∃ s' replies, run (startedHandlers (requested deviceGdb deviceGdb) fun _ => [countingMonitor DebuggerError]) zeroDevice
        (((deviceMessages.flatMap fun m => m.space ++ m.text) ++ ['\n']).map Ascii.byte) = .ok s' ∧
      ServesAll GdbServer.GdbRegisters.armNames byteSum zeroDevice.target.gdb (deviceMessages.map (·.call)) replies
        s'.handled.target.gdb ∧
      s'.sent = replies.map line ∧ s'.handled.posted = [] ++ deviceMessages.flatMap (requestEvents ·.call) := by
  refine forwarding_refines deviceGdb_debugs ?_ zeroDevice (.inl rfl) deviceMessages ?_ ['\n'] (by decide)
  · intro event monitor hmonitor
    exact List.mem_singleton.mp hmonitor ▸ countingMonitor_watches _ event
  · intro m hm
    rcases List.mem_cons.mp hm with rfl | hm
    · exact .setCpuState stateMembers_settable
    rcases List.mem_cons.mp hm with rfl | hm
    · exact .write (show (31#32 : BitVec 32).toNat + AccessSize.bytes .word ≤ 2 ^ 32 by decide) 0x11223344#32 _
    rcases List.mem_pair.mp hm with rfl | rfl
    · exact .read (show (31#32 : BitVec 32).toNat + AccessSize.bytes .word ≤ 2 ^ 32 by decide) _
    · exact .cont

end S2EEmulator

end Avatar
