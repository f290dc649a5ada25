import Avatar.Emulators.Emulator
import Avatar.Theorems.RemoteMemory

/-! Monitors that only watch. Whatever bytes the emulator sends, and whatever the target does, the target is asked for the
    same, the emulator gets the same replies and the same events are posted as without them. -/

namespace Avatar
open StateExcept

/-! ### The interface -/

namespace S2ERemoteMemoryInterface
variable {σ σ' α : Type} {p : σ → σ'}

def RunState.map (p : σ → σ') (s : RunState σ) : RunState σ' := { s with handled := p s.handled }

theorem callHandler_projects (call : Call) {handler : Option (HandlerM σ α)} {handler' : Option (HandlerM σ' α)}
    (h : Option.Rel (Projects p) handler handler') :
    Projects (RunState.map p) (callHandler call handler) (callHandler call handler') := by
  intro s
  cases h with
  | none => rfl
  | @some x y hxy =>
    have hrun : mapState p (x s.handled) = y (p s.handled) := hxy s.handled
    cases hx : x s.handled with
    | ok a handled =>
      rw [hx] at hrun
      have hy : y (RunState.map p s).handled = .ok a (p handled) := hrun.symm
      simp only [callHandler, hx, hy]
      rfl
    | error e handled =>
      rw [hx] at hrun
      have hy : y (RunState.map p s).handled = .error e (p handled) := hrun.symm
      simp only [callHandler, hx, hy]
      rfl

theorem sendReply_projects (reply : List (Json.Str × Json)) :
    Projects (RunState.map p) (sendReply reply : RunM σ Unit) (sendReply reply) := .update fun _ => rfl

/-- Each handler does on a part of its state what another handler does. -/
structure HandlersProject (p : σ → σ') (handlers : Handlers σ) (handlers' : Handlers σ') : Prop where
  read : ∀ address size cpu_state, Option.Rel (Projects p) (handlers.read.map fun read => read address size cpu_state)
    (handlers'.read.map fun read => read address size cpu_state)
  write : ∀ address size value cpu_state, Option.Rel (Projects p)
    (handlers.write.map fun write => write address size value cpu_state)
    (handlers'.write.map fun write => write address size value cpu_state)
  setCpuState : ∀ cpu_state, Option.Rel (Projects p) (handlers.setCpuState.map fun setCpuState => setCpuState cpu_state)
    (handlers'.setCpuState.map fun setCpuState => setCpuState cpu_state)
  getCpuState : Option.Rel (Projects p) handlers.getCpuState handlers'.getCpuState
  cont : Option.Rel (Projects p) handlers.cont handlers'.cont
  getChecksum : ∀ address size, Option.Rel (Projects p)
    (handlers.getChecksum.map fun getChecksum => getChecksum address size)
    (handlers'.getChecksum.map fun getChecksum => getChecksum address size)

variable {handlers : Handlers σ} {handlers' : Handlers σ'}

theorem handle_projects (h : HandlersProject p handlers handlers') (request : Json) :
    Projects (RunState.map p) (handle handlers request) (handle handlers' request) := by
  refine .bind (.lift _) fun cmd => .ite ?read (.ite ?write (.ite ?setCpuState (.ite ?getCpuState (.ite ?cont
    (.ite ?writeBuffer (.ite ?getChecksum (.pure ())))))))
  case read =>
    refine .bind (.lift _) fun address => .bind (.lift _) fun size => .bind (.lift _) fun cpu_state => ?_
    exact .bind (callHandler_projects _ (h.read address size cpu_state)) fun _ => sendReply_projects _
  case write =>
    refine .bind (.lift _) fun address => .bind (.lift _) fun size => .bind (.lift _) fun value => ?_
    exact .bind (.lift _) fun cpu_state => callHandler_projects _ (h.write address size value cpu_state)
  case setCpuState =>
    refine .bind (.lift _) fun cpu_state => ?_
    exact .bind (callHandler_projects _ (h.setCpuState cpu_state)) fun _ => sendReply_projects _
  case getCpuState => exact .bind (callHandler_projects _ h.getCpuState) fun _ => sendReply_projects _
  case cont => exact .bind (callHandler_projects _ h.cont) fun _ => sendReply_projects _
  case writeBuffer => exact .bind (.lift _) fun _ => .bind (.lift _) fun _ => .bind (.lift _) fun _ => .throw _
  case getChecksum =>
    refine .bind (.lift _) fun address => .bind (.lift _) fun size => ?_
    exact .bind (callHandler_projects _ (h.getChecksum address size)) fun _ => sendReply_projects _

theorem next_projects (h : HandlersProject p handlers handlers') (s : RunState σ) (byte : Bytes.Byte) :
    (RunState.map p s).next handlers' byte = (s.next handlers byte).map (RunState.map p) := by
  have hbuffer : (RunState.map p s).buffer = s.buffer := rfl
  rw [RunState.next, RunState.next, hbuffer]
  cases decodeAscii [byte] with
  | error e => rfl
  | ok c =>
    simp only [bind, Except.bind]
    cases Json.loads (s.buffer ++ c) with
    | none => rfl
    | some request =>
      dsimp only
      cases getItem request "cmd" with
      | error e => rfl
      | ok cmd =>
        have hfinal := (handle_projects h request).final { s with buffer := [], decoded := s.decoded ++ [request] }
        exact congrArg Except.ok hfinal.symm

theorem foldlM_next_projects (h : HandlersProject p handlers handlers') (bytes : List Bytes.Byte) (s : RunState σ) :
    bytes.foldlM (RunState.next handlers') (RunState.map p s) =
      (bytes.foldlM (RunState.next handlers) s).map (RunState.map p) := by
  induction bytes generalizing s with
  | nil => rfl
  | cons byte bytes ih =>
    rw [List.foldlM_cons, List.foldlM_cons, next_projects h]
    cases s.next handlers byte with
    | error e => rfl
    | ok s' => exact ih s'

end S2ERemoteMemoryInterface

/-! ### The handlers -/

/-- The monitor leaves the dictionary as it is, and raises nothing. -/
def Monitor.Watches {ε μ : Type} (monitor : Monitor ε μ) (event : MonitorEvent) : Prop :=
  ∃ hook, monitor.hook event = some hook ∧ ∀ params m, ∃ m', hook params m = .ok params m'

/-- What is behind the handlers, without the monitors -/
def Forwarding.unwatched {μ τ : Type} (s : Forwarding μ τ) : Forwarding Unit τ := ⟨s.posted, (), s.target⟩

namespace EmulatorTargetCallProxy
variable {ε μ τ α : Type} {python : PyException → ε} {proxy : EmulatorTargetCallProxy ε μ τ} {target : TargetAccess ε τ}

/-- The proxy without monitors -/
def alone (target : TargetAccess ε τ) : EmulatorTargetCallProxy ε Unit τ := ⟨some target, fun _ => []⟩

/-- A monitor that watches whatever it has a method for can be added. -/
theorem watches_addMonitor {monitor : Monitor ε μ}
    (h : ∀ event, ∀ monitor ∈ proxy.monitor_hooks event, monitor.Watches event)
    (hmonitor : ∀ event, (monitor.hook event).isSome → monitor.Watches event) :
    ∀ event, ∀ other ∈ (addMonitor monitor proxy).monitor_hooks event, other.Watches event := by
  intro event other hother
  change other ∈ if _ then _ else _ at hother
  by_cases hhook : (monitor.hook event).isSome
  · rw [if_pos hhook] at hother
    rcases List.mem_append.mp hother with hother | hother
    · exact h event other hother
    · exact List.mem_singleton.mp hother ▸ hmonitor event hhook
  · rw [if_neg hhook] at hother
    exact h event other hother

theorem watches_removeMonitor (monitor : Monitor ε μ)
    (h : ∀ event, ∀ monitor ∈ proxy.monitor_hooks event, monitor.Watches event) :
    ∀ event, ∀ other ∈ (removeMonitor monitor proxy).monitor_hooks event, other.Watches event :=
  fun event other hother => h event other (List.mem_of_mem_eraseP hother)

theorem onTarget_projects (x : EStateM ε τ α) :
    Projects Forwarding.unwatched (onTarget x : ForwardM ε μ τ α) (onTarget x) := by
  intro s
  have htarget : x s.unwatched.target = x s.target := rfl
  rw [onTarget, onTarget, htarget]
  cases x s.target <;> rfl

theorem notify_projects {event : MonitorEvent} (h : ∀ monitor ∈ proxy.monitor_hooks event, monitor.Watches event)
    (params : RequestParams) :
    Projects Forwarding.unwatched (proxy.notify python event params) ((alone target).notify python event params) := by
  intro s
  have hnotify : ∃ m', (proxy.notify python event params : ForwardM ε μ τ _) s = .ok params { s with monitors := m' } := by
    rw [notify]
    generalize proxy.monitor_hooks event = monitors at h
    induction monitors generalizing s with
    | nil => exact ⟨s.monitors, rfl⟩
    | cons monitor monitors ih =>
      obtain ⟨hook, hhook, hwatches⟩ := h monitor (.head _)
      obtain ⟨m', hm'⟩ := hwatches params s.monitors
      have hcall : (callMonitor python event params monitor : ForwardM ε μ τ _) s =
          .ok params { s with monitors := m' } := by
        simp only [callMonitor, hhook, onMonitor, hm']
      rw [List.foldlM_cons, bind_ok hcall]
      exact ih { s with monitors := m' } fun monitor hmonitor => h monitor (.tail _ hmonitor)
  obtain ⟨m', hm'⟩ := hnotify
  rw [hm']
  rfl

variable {monitor_hooks : MonitorEvent → List (Monitor ε μ)}

theorem read_projects (h : ∀ event, ∀ monitor ∈ monitor_hooks event, monitor.Watches event) (params : RequestParams) :
    Projects Forwarding.unwatched (handleEmulatorReadRequest python ⟨some target, monitor_hooks⟩ params)
      ((alone target).handleEmulatorReadRequest python params) := by
  refine .bind (.pure target) fun target => .bind (notify_projects (h _) params) fun params => ?_
  refine .bind (onTarget_projects _) fun value => .bind (notify_projects (h _) _) fun params => ?_
  rw [EmulatorTargetCallProxy.value, EmulatorTargetCallProxy.value]
  cases params.value with
  | none => exact .throw _
  | some value => exact .pure value

theorem write_projects (h : ∀ event, ∀ monitor ∈ monitor_hooks event, monitor.Watches event) (params : RequestParams) :
    Projects Forwarding.unwatched (handleEmulatorWriteRequest python ⟨some target, monitor_hooks⟩ params)
      ((alone target).handleEmulatorWriteRequest python params) := by
  refine .bind (.pure target) fun target => .bind (notify_projects (h _) params) fun params => .bind ?_ fun value => ?_
  · rw [EmulatorTargetCallProxy.value, EmulatorTargetCallProxy.value]
    cases params.value with
    | none => exact .throw _
    | some value => exact .pure value
  · exact .bind (onTarget_projects _) fun _ => .bind (notify_projects (h _) params) fun _ => .pure ()

theorem setCpuRegister_projects (target : TargetAccess ε τ) (reg : RegisterKey) (text : Json) :
    Projects Forwarding.unwatched (setCpuRegister python target reg text : ForwardM ε μ τ Unit)
      (setCpuRegister python target reg text) :=
  .bind (.lift _) fun _ => onTarget_projects _

theorem setCpuState_projects (cpu_state : Json) :
    Projects Forwarding.unwatched (handleEmulatorSetCpuStateRequest python ⟨some target, monitor_hooks⟩ cpu_state)
      ((alone target).handleEmulatorSetCpuStateRequest python cpu_state) := by
  refine .bind (.pure target) fun target => ?_
  cases cpu_state with
  | obj members => exact .forM fun entry => .ite (.pure ()) (setCpuRegister_projects target _ _)
  | arr elements =>
    refine .forM fun reg => .ite (.pure ()) (.bind (.lift _) fun key => .bind (.lift _) fun text => ?_)
    exact setCpuRegister_projects target _ _
  | str units =>
    cases units with
    | nil => exact .pure ()
    | cons unit units => exact .throw _
  | _ => exact .throw _

theorem getCpuState_projects :
    Projects Forwarding.unwatched (handleEmulatorGetCpuStateRequest python ⟨some target, monitor_hooks⟩)
      ((alone target).handleEmulatorGetCpuStateRequest python) :=
  .bind (.pure target) fun _ => .mapM fun _ => .bind (onTarget_projects _) fun _ => .pure _

theorem continue_projects :
    Projects Forwarding.unwatched (handleEmulatorContinueRequest python ⟨some target, monitor_hooks⟩)
      ((alone target).handleEmulatorContinueRequest python) :=
  .bind (.pure target) fun _ => onTarget_projects _

end EmulatorTargetCallProxy

namespace S2EEmulator
open EmulatorTargetCallProxy S2ERemoteMemoryInterface
variable {ε μ τ α : Type} {target : TargetAccess ε τ} {monitor_hooks : MonitorEvent → List (Monitor ε μ)}

theorem logged_projects {x : ForwardM ε μ τ α} {y : ForwardM ε Unit τ α} (h : Projects Forwarding.unwatched x y) :
    Projects Forwarding.unwatched (logged x) (logged y) := by
  intro s
  have hrun := h s
  rw [logged, logged, ← hrun]
  cases x s <;> rfl

theorem postEvent_projects (tag : Tag) (params : RequestParams) :
    Projects Forwarding.unwatched (Emulator.postEvent tag params : ForwardM ε μ τ Unit) (Emulator.postEvent tag params) :=
  .update fun _ => rfl

theorem startedHandlers_project (h : ∀ event, ∀ monitor ∈ monitor_hooks event, monitor.Watches event) :
    HandlersProject Forwarding.unwatched (startedHandlers target monitor_hooks)
      (startedHandlers target fun _ => ([] : List (Monitor ε Unit))) where
  read _ _ _ := .some (logged_projects (.bind (postEvent_projects _ _) fun _ => .bind (.pure _) fun _ =>
    read_projects h _))
  write _ _ _ _ := .some (logged_projects (.bind (postEvent_projects _ _) fun _ => .bind (.pure _) fun _ =>
    write_projects h _))
  setCpuState _ := .some (logged_projects (.bind (.pure _) fun _ => setCpuState_projects _))
  getCpuState := .some (logged_projects (.bind (.pure _) fun _ => getCpuState_projects))
  cont := .some (logged_projects (.bind (.pure _) fun _ => continue_projects))
  getChecksum _ _ := .some (logged_projects (onTarget_projects _))

/-- Monitors that only watch, seen from the interface -/
theorem run_unwatched (h : ∀ event, ∀ monitor ∈ monitor_hooks event, monitor.Watches event) (handled : Forwarding μ τ)
    (bytes : List Bytes.Byte) :
    (run (startedHandlers target monitor_hooks) handled bytes).map (RunState.map Forwarding.unwatched) =
      run (startedHandlers target fun _ => ([] : List (Monitor ε Unit))) handled.unwatched bytes :=
  (foldlM_next_projects (startedHandlers_project h) bytes (.init handled)).symm

/-- Whatever bytes come, and whatever the target does: two sets of monitors that only watch make no difference to the
    replies, the calls, the events and the target. -/
theorem monitors_make_no_difference {μ' : Type} {monitor_hooks' : MonitorEvent → List (Monitor ε μ')}
    (h : ∀ event, ∀ monitor ∈ monitor_hooks event, monitor.Watches event)
    (h' : ∀ event, ∀ monitor ∈ monitor_hooks' event, monitor.Watches event) {handled : Forwarding μ τ}
    {handled' : Forwarding μ' τ} (hhandled : handled.unwatched = handled'.unwatched) (bytes : List Bytes.Byte) :
    (run (startedHandlers target monitor_hooks) handled bytes).map (RunState.map Forwarding.unwatched) =
      (run (startedHandlers target monitor_hooks') handled' bytes).map (RunState.map Forwarding.unwatched) := by
  rw [run_unwatched h, run_unwatched h', hhandled]

/-- A monitor that counts its calls -/
def countingMonitor (ε : Type) : Monitor ε Nat := ⟨0, fun _ => some fun params calls => .ok params (calls + 1)⟩

theorem countingMonitor_watches (ε : Type) (event : MonitorEvent) : (countingMonitor ε).Watches event :=
  ⟨_, rfl, fun _ calls => ⟨calls + 1, rfl⟩⟩

/-- A target that has one word -/
def wordTarget : TargetAccess PyException Int where
  python := id
  readTypedMemory _ _ := get
  writeTypedMemory _ _ value := set value
  setRegister _ _ := pure ()
  getRegister _ := get
  cont := pure ()
  getChecksum _ _ := get

/-- The events, the monitors and the word -/
def counted : Forwarding Nat Int := ⟨[], 0, 7⟩

theorem monitors_make_no_difference_counting :
    (run (startedHandlers wordTarget fun _ => [countingMonitor PyException]) counted
        (readMessage.text.map Ascii.byte)).map (RunState.map Forwarding.unwatched) =
      (run (startedHandlers wordTarget fun _ => ([] : List (Monitor PyException Unit))) counted.unwatched
        (readMessage.text.map Ascii.byte)).map (RunState.map Forwarding.unwatched) := by
  refine monitors_make_no_difference ?_ ?_ (by rfl) _
  · let proxy : EmulatorTargetCallProxy PyException Nat Int := ⟨some wordTarget, fun _ => []⟩
    have hnone : ∀ event, ∀ monitor ∈ proxy.monitor_hooks event, monitor.Watches event :=
      fun _ _ hmonitor => absurd hmonitor List.not_mem_nil
    exact watches_addMonitor hnone fun event _ => countingMonitor_watches _ event
  · intro event monitor hmonitor
    exact absurd hmonitor List.not_mem_nil

end S2EEmulator

end Avatar
