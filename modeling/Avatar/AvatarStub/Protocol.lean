import Avatar.AvatarStub.Operations
import Avatar.Lib.Transition

/-! The threads of `AvatarProtocol` (`avatar/interfaces/avatar_stub/avatar_protocol.py`) and the device
    behind the link, as a transition system: the callers of the blocking operations, `run_send`, the
    receiver thread of `AvatarLowlevelProtocol`, and a device that may do anything.

    The link carries whole messages in order: `toHost` holds what the receiver thread will parse. A call
    is known by its position in `calls`, which stands for its condition variable and its reference. -/

namespace Avatar

/-- Where the thread that makes a call stands. -/
inductive Phase where
  /-- The condition variable is acquired, the command is not queued. -/
  | acquired
  /-- The command is queued, the condition variable still held. -/
  | queued
  /-- In `cv.wait()`. -/
  | waiting
  /-- Notified, but still in `cv.wait()`, which has to acquire the condition variable again. -/
  | notified
  | returned (outcome : Except OperationError (Option FieldValue))

/-- A call of a blocking operation, with what its reference holds. -/
structure Call where
  op : Operation
  command : AvatarMessage
  phase : Phase
  ref : Option AvatarMessage

def Phase.holdsCondition : Phase → Bool
  | acquired | queued => true
  | _ => false

/-- `cv.notify()` wakes a caller that waits. -/
def Phase.notify : Phase → Phase
  | waiting => notified
  | phase => phase

/-- What the call returns when it is awake. A reference that holds nothing has no attributes. -/
def Call.outcome (call : Call) : Except OperationError (Option FieldValue) :=
  match call.ref, call.op with
  | some received, op => op.result received
  | none, .setRegister .. => .ok none
  | none, _ => .error (.python .attributeError)

inductive Sender where
  /-- About to take a command from the queue. -/
  | idle
  /-- About to acquire the send lock for the command of the call. -/
  | got (id : Nat)
  /-- Holds the send lock. -/
  | locked (id : Nat)
  /-- Has sent the command, and holds the send lock. -/
  | sent (id : Nat)
  /-- About to take a reply from the queue. -/
  | waiting (id : Nat)
  | received (id : Nat) (reply : AvatarMessage)
  /-- Holds the condition variable of the call. -/
  | notifying (id : Nat) (reply : AvatarMessage)
  | dead (id : Nat)

inductive Receiver where
  | running
  /-- In a blocking operation that the handler of asynchronous messages has called. -/
  | calling (id : Nat)

/-- `ASYNCHRONOUS_MESSAGES` -/
def asynchronousMessages : List String :=
  ["AVATAR_RPC_DTH_STATE", "AVATAR_RPC_DTH_PAGEFAULT", "AVATAR_RPC_DTH_INFO_EXCEPTION"]

namespace AvatarProtocol

/-- `toDevice` holds the calls whose commands have been sent and that the device has not dealt with, and
    `answers` what the device has replied to which call, in order. -/
structure State where
  calls : List Call
  queued_commands : List Nat
  sender : Sender
  send_lock : Bool
  toDevice : List Nat
  toHost : List AvatarMessage
  received_synchronous_messages : List AvatarMessage
  receiver : Receiver
  answers : List (Nat × AvatarMessage)

def State.init : State where
  calls := []
  queued_commands := []
  sender := .idle
  send_lock := false
  toDevice := []
  toHost := []
  received_synchronous_messages := []
  receiver := .running
  answers := []

inductive Action where
  | call (op : Operation)
  | put (id : Nat)
  | wait (id : Nat)
  | wake (id : Nat)
  | get
  | lock
  | send
  | unlock
  | reply
  | timeout
  | unexpected
  | acquire
  | notify
  | receive (message : AvatarMessage)
  | resume
  | answer (message : AvatarMessage)
  | ignore
  | emit (message : AvatarMessage)

/-- One step of one of the threads, or of the device. `handler` says which operation the handler of
    asynchronous messages calls. -/
inductive Step (handler : AvatarMessage → Option Operation) (s : State) : Action → State → Prop where
  -- The callers. What a call raises before it queues its command, it raises without any effect.
  | call (op : Operation) (command : AvatarMessage) : op.message = .ok command →
      Step handler s (.call op) { s with calls := s.calls ++ [⟨op, command, .acquired, none⟩] }
  | put (id : Nat) (call : Call) : s.calls[id]? = some call → call.phase = .acquired →
      Step handler s (.put id) { s with
        calls := s.calls.set id { call with phase := .queued }
        queued_commands := s.queued_commands ++ [id] }
  | wait (id : Nat) (call : Call) : s.calls[id]? = some call → call.phase = .queued →
      Step handler s (.wait id) { s with calls := s.calls.set id { call with phase := .waiting } }
  | wake (id : Nat) (call : Call) : s.calls[id]? = some call → call.phase = .notified →
      (∀ reply, s.sender ≠ .notifying id reply) →
      Step handler s (.wake id) { s with calls := s.calls.set id { call with phase := .returned call.outcome } }
  -- `run_send`
  | get (id : Nat) (rest : List Nat) : s.sender = .idle → s.queued_commands = id :: rest →
      Step handler s .get { s with sender := .got id, queued_commands := rest }
  | lock (id : Nat) : s.sender = .got id → s.send_lock = false →
      Step handler s .lock { s with sender := .locked id, send_lock := true }
  | send (id : Nat) (call : Call) (body : List Bytes.Byte) : s.sender = .locked id → s.calls[id]? = some call →
      call.command.serialize = .ok body →
      Step handler s .send { s with sender := .sent id, toDevice := s.toDevice ++ [id] }
  | sendRaises (id : Nat) (call : Call) (e : PyException) : s.sender = .locked id → s.calls[id]? = some call →
      call.command.serialize = .error e →
      Step handler s .send { s with sender := .dead id }
  | unlock (id : Nat) : s.sender = .sent id →
      Step handler s .unlock { s with sender := .waiting id, send_lock := false }
  | reply (id : Nat) (message : AvatarMessage) (rest : List AvatarMessage) : s.sender = .waiting id →
      s.received_synchronous_messages = message :: rest →
      Step handler s .reply { s with sender := .received id message, received_synchronous_messages := rest }
  | timeout (id : Nat) : s.sender = .waiting id →
      Step handler s .timeout { s with sender := .dead id }
  | unexpected (id : Nat) (call : Call) (message : AvatarMessage) : s.sender = .received id message →
      s.calls[id]? = some call → message.name ∉ call.op.expectedReplies →
      Step handler s .unexpected { s with sender := .idle }
  | acquire (id : Nat) (call : Call) (message : AvatarMessage) : s.sender = .received id message →
      s.calls[id]? = some call → message.name ∈ call.op.expectedReplies → call.phase.holdsCondition = false →
      Step handler s .acquire { s with sender := .notifying id message }
  | notify (id : Nat) (call : Call) (message : AvatarMessage) : s.sender = .notifying id message →
      s.calls[id]? = some call →
      Step handler s .notify { s with
        calls := s.calls.set id { call with phase := call.phase.notify, ref := some message }
        sender := .idle }
  -- The receiver thread. It survives what `handle_asynchronous_message` raises.
  | receiveSynchronous (message : AvatarMessage) (rest : List AvatarMessage) : s.receiver = .running →
      s.toHost = message :: rest → message.name ∉ asynchronousMessages →
      Step handler s (.receive message) { s with
        toHost := rest
        received_synchronous_messages := s.received_synchronous_messages ++ [message] }
  -- There is no `_page_fault_handler` and no `_exception_handler`: only a state message gets to the handler.
  | receiveAsynchronous (message : AvatarMessage) (rest : List AvatarMessage) : s.receiver = .running →
      s.toHost = message :: rest → message.name ∈ asynchronousMessages →
      (message.name = "AVATAR_RPC_DTH_STATE" → ∀ op command, handler message = some op → op.message ≠ .ok command) →
      Step handler s (.receive message) { s with toHost := rest }
  | receiveState (message : AvatarMessage) (rest : List AvatarMessage) (op : Operation) (command : AvatarMessage) :
      s.receiver = .running → s.toHost = message :: rest → message.name = "AVATAR_RPC_DTH_STATE" →
      handler message = some op → op.message = .ok command →
      Step handler s (.receive message) { s with
        toHost := rest
        receiver := .calling s.calls.length
        calls := s.calls ++ [⟨op, command, .acquired, none⟩] }
  | resume (id : Nat) (call : Call) (outcome : Except OperationError (Option FieldValue)) :
      s.receiver = .calling id → s.calls[id]? = some call → call.phase = .returned outcome →
      Step handler s .resume { s with receiver := .running }
  -- The device. It answers a command, or does not, and sends messages of its own accord.
  | answer (id : Nat) (rest : List Nat) (message : AvatarMessage) : s.toDevice = id :: rest →
      Step handler s (.answer message) { s with
        toDevice := rest
        toHost := s.toHost ++ [message]
        answers := s.answers ++ [(id, message)] }
  | ignore (id : Nat) (rest : List Nat) : s.toDevice = id :: rest →
      Step handler s .ignore { s with toDevice := rest }
  | emit (message : AvatarMessage) : Step handler s (.emit message) { s with toHost := s.toHost ++ [message] }

end AvatarProtocol

end Avatar
