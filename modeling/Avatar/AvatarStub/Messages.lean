import Avatar.Lib.Bytes

/-! The messages of the stub link (`avatar/interfaces/avatar_stub/avatar_messages.py`): the values that
    a message carries, the table that says how each opcode is packed and unpacked, and the functions
    that read the table.

    Integers of the program are `Int`, byte strings are lists of bytes. A call that raises is an
    `Except.error`; the exceptions are told apart because the parser handles only one of them. -/

namespace Avatar
open Bytes

/-- The exceptions that the functions of the stub link raise. -/
inductive PyException where
  | assertionError
  | indexError
  | keyError
  | typeError
  | attributeError
  | valueError
  | zeroDivisionError
  | overflowError
  | structError
  /-- `AvatarProtocolUnknownOpcodeException` -/
  | unknownOpcode (opcode : Byte)
  /-- `AvatarProtocolOutOfDataException` -/
  | outOfData
deriving DecidableEq, Repr

/-- An entry of a memory map: a dictionary with the members `start`, `end` and `flags`. -/
structure MemoryMapEntry where
  start : Int
  stop : Int
  flags : Int
deriving DecidableEq, Repr

/-- The value of a field of a message. A `lazy` value is a `map` object: it holds what each call of
    `next` gives, and nothing has been computed when the message is built. -/
inductive FieldValue where
  | int (v : Int)
  | bytes (b : List Byte)
  | ints (l : List Int)
  | entries (l : List MemoryMapEntry)
  | lazy (l : List (Except PyException Int))

structure AvatarMessage where
  opcode : Byte
  name : String
  fields : List (String × FieldValue)

/-- What a `pack` function returns. A text cannot be appended to bytes. -/
inductive Packed where
  | bytes (b : List Byte)
  | str (s : String)
deriving DecidableEq, Repr

structure MessageDeclaration where
  name : String
  unpack : List Byte → Except PyException (List (String × FieldValue))
  pack : AvatarMessage → Except PyException Packed

/-! ### Conversions -/

def toUint32 (data : List Byte) : Except PyException FieldValue :=
  if (slice data 0 4).length = 4 then .ok (.int (ofLE (slice data 0 4))) else .error .structError

def toUint16 (data : List Byte) : Except PyException FieldValue :=
  if (slice data 0 2).length = 2 then .ok (.int (ofLE (slice data 0 2))) else .error .structError

/-- `data[i]` -/
def index (data : List Byte) (i : Nat) : Except PyException Byte :=
  match data[i]? with
  | some b => .ok b
  | none => .error .indexError

def toUint8 (data : List Byte) : Except PyException FieldValue := do
  let b ← index data 0
  .ok (.int b.toNat)

def fromUint32 : FieldValue → Except PyException (List Byte)
  | .int v => if 0 ≤ v ∧ v < 2 ^ 32 then .ok (toLE 4 v.toNat) else .error .structError
  | _ => .error .structError

def fromUint16 : FieldValue → Except PyException (List Byte)
  | .int v => if 0 ≤ v ∧ v < 2 ^ 16 then .ok (toLE 2 v.toNat) else .error .structError
  | _ => .error .structError

def fromUint8 : FieldValue → Except PyException (List Byte)
  | .int v => .ok [BitVec.ofInt 8 v]
  | _ => .error .typeError

def fromSize (val size : FieldValue) : Except PyException (List Byte) :=
  match size with
  | .int 1 => fromUint8 val
  | .int 2 => fromUint16 val
  | _ => fromUint32 val

/-! ### Operations of the language on field values -/

/-- Evaluate a dictionary display, its values in order. -/
def dict : List (String × Except PyException FieldValue) → Except PyException (List (String × FieldValue))
  | [] => .ok []
  | (key, value) :: rest => do
    let v ← value
    let fields ← dict rest
    .ok ((key, v) :: fields)

/-- `obj.field` -/
def AvatarMessage.attr (msg : AvatarMessage) (field : String) : Except PyException FieldValue :=
  match msg.fields.lookup field with
  | some v => .ok v
  | none => .error .attributeError

/-- `len(v)` -/
def FieldValue.len : FieldValue → Except PyException Nat
  | .bytes b => .ok b.length
  | .ints l => .ok l.length
  | .entries l => .ok l.length
  | _ => .error .typeError

/-- The right operand `v` of a sum whose left operand is bytes. -/
def FieldValue.asBytes : FieldValue → Except PyException (List Byte)
  | .bytes b => .ok b
  | _ => .error .typeError

/-- `bytes(v)` -/
def FieldValue.toBytes : FieldValue → Except PyException (List Byte)
  | .bytes b => .ok b
  | .int v => if v < 0 then .error .valueError else .ok (List.replicate v.toNat 0)
  | .ints l => l.mapM fun v => if 0 ≤ v ∧ v < 256 then .ok (BitVec.ofInt 8 v) else .error .valueError
  | .lazy l => l.mapM fun r => do
    let v ← r
    if 0 ≤ v ∧ v < 256 then .ok (BitVec.ofInt 8 v) else .error .valueError
  | .entries _ => .error .typeError

/-- `ord(v)` of a number: only texts of length one have an ordinal. -/
def ord {α : Type} (_ : Byte) : Except PyException α := .error .typeError

/-- `"".join(x)` of a tuple of numbers: the tuples here are never empty. -/
def joinText (_ : List Byte) : Except PyException (List Byte) := .error .typeError

/-- `zip(*[iter(data)] * 4)`: the groups of four bytes, without an incomplete last one. -/
def zipIter4 : List Byte → List (List Byte)
  | a :: b :: c :: d :: rest => [a, b, c, d] :: zipIter4 rest
  | _ => []

/-- `to_uint32(v)` and `to_uint16(v)` of a field: a number cannot be sliced. -/
def toUint32Field : FieldValue → Except PyException FieldValue
  | .bytes b => toUint32 b
  | _ => .error .typeError

def toUint16Field : FieldValue → Except PyException FieldValue
  | .bytes b => toUint16 b
  | _ => .error .typeError

/-- `to_uint32("".join(x))` of a tuple of numbers. -/
def joinedUint32 (x : List Byte) : Except PyException Int := do
  match ← toUint32 (← joinText x) with
  | .int v => .ok v
  | _ => .error .typeError

/-! ### The table -/

namespace MessageDeclaration

/-- The pack functions that return `bytes()`. -/
def packNothing (_ : AvatarMessage) : Except PyException Packed := .ok (.bytes [])

/-- The pack functions that return `""`. -/
def packEmptyText (_ : AvatarMessage) : Except PyException Packed := .ok (.str "")

/-- The pack functions that are `from_uint8(obj.field)`. -/
def packUint8 (field : String) (obj : AvatarMessage) : Except PyException Packed := do
  let v ← obj.attr field
  let b ← fromUint8 v
  .ok (.bytes b)

/-- The pack functions that are `from_uint32(obj.field)`. -/
def packUint32 (field : String) (obj : AvatarMessage) : Except PyException Packed := do
  let v ← obj.attr field
  let b ← fromUint32 v
  .ok (.bytes b)

/-- The pack functions that are `from_uint32(obj.address) + from_uint8(obj.size)`. -/
def packAddressSize (obj : AvatarMessage) : Except PyException Packed := do
  let address ← fromUint32 (← obj.attr "address")
  let size ← fromUint8 (← obj.attr "size")
  .ok (.bytes (address ++ size))

def readMemory : MessageDeclaration where
  name := "AVATAR_RPC_HTD_READ_MEMORY"
  unpack data := dict [("address", toUint32 (slice data 0 4)), ("size", toUint8 (slice data 4 5))]
  pack := packAddressSize

def writeMemory : MessageDeclaration where
  name := "AVATAR_RPC_HTD_WRITE_MEMORY"
  unpack data := dict [("address", toUint32 (slice data 0 4)), ("size", toUint8 (slice data 4 5)),
    ("value", toUint32 (slice data 5 9))]
  pack obj := do
    let address ← fromUint32 (← obj.attr "address")
    let size ← fromUint8 (← obj.attr "size")
    let value ← fromSize (← obj.attr "value") (← obj.attr "size")
    .ok (.bytes (address ++ size ++ value))

def getRegister : MessageDeclaration where
  name := "AVATAR_RPC_HTD_GET_REGISTER"
  unpack data := dict [("register", toUint8 (slice data 0 1))]
  pack := packUint8 "register"

def setRegister : MessageDeclaration where
  name := "AVATAR_RPC_HTD_SET_REGISTER"
  unpack data := dict [("register", toUint8 (slice data 0 1)), ("value", toUint32 (slice data 1 5))]
  pack obj := do
    let register ← fromUint8 (← obj.attr "register")
    let value ← fromUint32 (← obj.attr "value")
    .ok (.bytes (register ++ value))

def readUntypedMemory : MessageDeclaration where
  name := "AVATAR_RPC_HTD_READ_UNTYPED_MEMORY"
  unpack data := dict [("address", toUint32 (slice data 0 4)), ("size", toUint8 (slice data 4 5))]
  pack := packAddressSize

def writeUntypedMemory : MessageDeclaration where
  name := "AVATAR_RPC_HTD_WRITE_UNTYPED_MEMORY"
  unpack data := dict [("address", toUint32 (slice data 0 4)), ("size", toUint8 (slice data 4 5)),
    ("data", .ok (.bytes (data.drop 5)))]
  pack obj := do
    let address ← fromUint32 (← obj.attr "address")
    let length ← fromUint8 (.int (← (← obj.attr "data").len))
    let data ← (← obj.attr "data").toBytes
    .ok (.bytes (address ++ length ++ data))

def codeletExecute : MessageDeclaration where
  name := "AVATAR_RPC_HTD_CODELET_EXECUTE"
  unpack data := dict [("address", toUint32 (slice data 0 4))]
  pack := packUint32 "address"

def insertPage : MessageDeclaration where
  name := "AVATAR_RPC_HTD_INSERT_PAGE"
  unpack data := dict [("page_address", toUint32 (slice data 0 4)), ("data", .ok (.bytes (slice data 5 (5 + 64))))]
  pack obj := do
    let page_address ← fromUint32 (← obj.attr "page_address")
    let data ← (← obj.attr "data").asBytes
    .ok (.bytes (page_address ++ data))

def extractPage : MessageDeclaration where
  name := "AVATAR_RPC_HTD_EXTRACT_PAGE"
  unpack data := dict [("page_address", toUint32 (slice data 0 4))]
  pack := packUint32 "page_address"

def unmapPage : MessageDeclaration where
  name := "AVATAR_RPC_HTD_UNMAP_PAGE"
  unpack data := dict [("page_address", toUint32 (slice data 0 4))]
  pack := packUint32 "page_address"

def setMemoryMap : MessageDeclaration where
  name := "AVATAR_RPC_HTD_SET_MEMORY_MAP"
  -- `ord` raises before the bounds of the slice are known, so the entries are never read.
  unpack data := do
    let n ← index data 0
    ord n
  pack obj := do
    let entries ← obj.attr "entries"
    let length ← fromUint8 (.int (← entries.len))
    match entries with
    | .entries l =>
      let parts ← l.mapM fun x => do
        let start ← fromUint32 (.int x.start)
        let stop ← fromUint32 (.int x.stop)
        let flags ← fromUint32 (.int x.flags)
        .ok (start ++ stop ++ flags)
      .ok (.bytes (length ++ parts.flatten))
    | _ => .error .typeError

def getDirtyPages : MessageDeclaration where
  name := "AVATAR_RPC_HTD_GET_DIRTY_PAGES"
  unpack _ := dict []
  pack := packNothing

def setExceptionConfig : MessageDeclaration where
  name := "AVATAR_RPC_HTD_SET_EXCEPTION_CONFIG"
  unpack data := dict [("config", toUint32 (slice data 0 4)), ("irq_squelch", toUint16 (slice data 4 6)),
    ("fiq_squelch", toUint16 (slice data 6 8)),
    ("exceptions_vectors", do
      let vectors ← (zipIter4 (slice data 8 (8 + 32))).mapM joinedUint32
      .ok (.ints vectors))]
  -- The fields are handed to `to_*` instead of `from_*`: three numbers are added, and then bytes to them.
  pack obj := do
    let _ ← toUint32Field (← obj.attr "config")
    let _ ← toUint16Field (← obj.attr "irq_squelch")
    let _ ← toUint16Field (← obj.attr "fiq_squelch")
    let _ ← obj.attr "exception_vectors"
    .error .typeError

def clearException : MessageDeclaration where
  name := "AVATAR_RPC_HTD_CLEAR_EXCEPTION"
  unpack data := dict [("exception", toUint8 (slice data 0 4))]
  pack := packUint8 "exception"

def resumeVm : MessageDeclaration where
  name := "AVATAR_RPC_HTD_RESUME_VM"
  unpack _ := dict []
  pack := packNothing

def queryState : MessageDeclaration where
  name := "AVATAR_RPC_HTD_QUERY_STATE"
  unpack _ := dict []
  pack := packNothing

def continueFromPagefault : MessageDeclaration where
  name := "AVATAR_RPC_HTD_CONTINUE_FROM_PAGEFAULT"
  unpack _ := dict []
  pack := packEmptyText

def infoException : MessageDeclaration where
  name := "AVATAR_RPC_DTH_INFO_EXCEPTION"
  unpack data := dict [("exception", toUint8 (slice data 0 1))]
  pack := packUint8 "exception"

def pagefault : MessageDeclaration where
  name := "AVATAR_RPC_DTH_PAGEFAULT"
  unpack data := dict [("page_address", toUint32 (slice data 0 4))]
  pack := packUint32 "page_address"

def state : MessageDeclaration where
  name := "AVATAR_RPC_DTH_STATE"
  unpack data := dict [("state", toUint8 (slice data 0 1))]
  pack := packUint8 "state"

def replyState : MessageDeclaration where
  name := "AVATAR_RPC_DTH_REPLY_STATE"
  unpack data := dict [("state", toUint8 (slice data 0 1))]
  pack := packUint8 "state"

def replyOk : MessageDeclaration where
  name := "AVATAR_RPC_DTH_REPLY_OK"
  unpack _ := dict []
  pack := packEmptyText

def replyError : MessageDeclaration where
  name := "AVATAR_RPC_DTH_REPLY_ERROR"
  unpack data := dict [("error", toUint8 (slice data 0 1))]
  pack := packUint8 "error"

def replyReadMemory : MessageDeclaration where
  name := "AVATAR_RPC_DTH_REPLY_READ_MEMORY"
  unpack data := dict [("value", do
    let n ← index data 0
    toUint32 (slice data 1 (1 + n.toNat) ++ List.replicate (4 - n.toNat) 0))]
  pack obj := do
    let length ← fromUint8 (.int (← (← obj.attr "data").len))
    let data ← (← obj.attr "data").asBytes
    .ok (.bytes (length ++ data))

def replyGetRegister : MessageDeclaration where
  name := "AVATAR_RPC_DTH_REPLY_GET_REGISTER"
  unpack data := dict [("value", toUint32 (slice data 0 4))]
  pack := packUint32 "value"

def replyExtractPage : MessageDeclaration where
  name := "AVATAR_RPC_DTH_REPLY_EXTRACT_PAGE"
  unpack data := dict [("data", .ok (.bytes (slice data 0 64)))]
  pack obj := do
    let data ← (← obj.attr "data").asBytes
    .ok (.bytes data)

def replyGetDirtyPages : MessageDeclaration where
  name := "AVATAR_RPC_DTH_REPLY_GET_DIRTY_PAGES"
  -- `map` calls neither function before the field is read.
  unpack data := dict [("addresses", do
    let n ← index data 0
    .ok (.lazy ((zipIter4 (slice data 1 (1 + 4 * n.toNat))).map joinedUint32)))]
  pack obj := do
    let addresses ← obj.attr "addresses"
    let n ← addresses.len
    let length ← if n < 256 then .ok [BitVec.ofNat 8 n] else .error .valueError
    match addresses with
    | .ints l =>
      let parts ← l.mapM fun v => fromUint32 (.int v)
      .ok (.bytes (length ++ parts.flatten))
    | _ => .error .structError

def replyReadUntypedMemory : MessageDeclaration where
  name := "AVATAR_RPC_DTH_REPLY_READ_UNTYPED_MEMORY"
  unpack data := dict [("data", .ok (.bytes data))]
  pack obj := do
    let data ← (← obj.attr "data").asBytes
    .ok (.bytes data)

def replyCodeletExecutionFinished : MessageDeclaration where
  name := "AVATAR_RPC_DTH_REPLY_CODELET_EXECUTION_FINISHED"
  unpack _ := dict []
  pack := packNothing

end MessageDeclaration

open MessageDeclaration in
/-- `MESSAGE_DECLARATIONS` -/
def messageDeclarations : List (Byte × MessageDeclaration) :=
  [(0x01, readMemory), (0x02, writeMemory), (0x03, getRegister), (0x04, setRegister),
   (0x05, readUntypedMemory), (0x06, writeUntypedMemory), (0x07, codeletExecute), (0x10, insertPage),
   (0x11, extractPage), (0x12, unmapPage), (0x13, setMemoryMap), (0x14, getDirtyPages),
   (0x20, setExceptionConfig), (0x21, clearException), (0x40, resumeVm), (0x41, queryState),
   (0x42, continueFromPagefault), (0xA0, infoException), (0xA4, pagefault), (0x81, state),
   (0x82, replyState), (0xB1, replyOk), (0xB2, replyError), (0x90, replyReadMemory),
   (0x91, replyGetRegister), (0x92, replyExtractPage), (0x93, replyGetDirtyPages),
   (0x94, replyReadUntypedMemory), (0x95, replyCodeletExecutionFinished)]

/-- `MESSAGE_NAME_DICTIONARY` -/
def messageNameDictionary : List (String × Byte × MessageDeclaration) :=
  messageDeclarations.map fun x => (x.2.name, x.1, x.2)

/-! ### Messages -/

/-- The pack function that the parser and the constructor store in the message. -/
def AvatarMessage.packer (msg : AvatarMessage) : Except PyException Packed :=
  match messageNameDictionary.lookup msg.name with
  | some (_, decl) => decl.pack msg
  | none => .error .attributeError

def AvatarMessage.serialize (msg : AvatarMessage) : Except PyException (List Byte) := do
  match ← msg.packer with
  | .bytes b => .ok (msg.opcode :: b)
  | .str _ => .error .typeError

def parseAvatarMessage (data : List Byte) : Except PyException AvatarMessage := do
  let opcode ← index data 0
  match messageDeclarations.lookup opcode with
  | none => .error (.unknownOpcode opcode)
  | some message_declaration =>
    match message_declaration.unpack (data.drop 1) with
    | .ok fields => .ok { opcode, name := message_declaration.name, fields }
    | .error .indexError => .error .outOfData
    | .error e => .error e

def createAvatarMessage (name : String) (options : List (String × FieldValue)) : Except PyException AvatarMessage :=
  match messageNameDictionary.lookup name with
  | some (opcode, _) => .ok { opcode, name, fields := options }
  | none => .error .keyError

/-! ### The table as a whole -/

theorem declarations_cases {P : Byte → MessageDeclaration → Prop}
    (readMemory : P 0x01 .readMemory) (writeMemory : P 0x02 .writeMemory) (getRegister : P 0x03 .getRegister)
    (setRegister : P 0x04 .setRegister) (readUntypedMemory : P 0x05 .readUntypedMemory)
    (writeUntypedMemory : P 0x06 .writeUntypedMemory) (codeletExecute : P 0x07 .codeletExecute)
    (insertPage : P 0x10 .insertPage) (extractPage : P 0x11 .extractPage) (unmapPage : P 0x12 .unmapPage)
    (setMemoryMap : P 0x13 .setMemoryMap) (getDirtyPages : P 0x14 .getDirtyPages)
    (setExceptionConfig : P 0x20 .setExceptionConfig) (clearException : P 0x21 .clearException)
    (resumeVm : P 0x40 .resumeVm) (queryState : P 0x41 .queryState)
    (continueFromPagefault : P 0x42 .continueFromPagefault) (infoException : P 0xA0 .infoException)
    (pagefault : P 0xA4 .pagefault) (state : P 0x81 .state) (replyState : P 0x82 .replyState)
    (replyOk : P 0xB1 .replyOk) (replyError : P 0xB2 .replyError) (replyReadMemory : P 0x90 .replyReadMemory)
    (replyGetRegister : P 0x91 .replyGetRegister) (replyExtractPage : P 0x92 .replyExtractPage)
    (replyGetDirtyPages : P 0x93 .replyGetDirtyPages) (replyReadUntypedMemory : P 0x94 .replyReadUntypedMemory)
    (replyCodeletExecutionFinished : P 0x95 .replyCodeletExecutionFinished) :
    ∀ {op : Byte} {d : MessageDeclaration}, (op, d) ∈ messageDeclarations → P op d := by
  intro op d hd
  simp only [messageDeclarations, List.mem_cons, List.not_mem_nil, or_false, Prod.mk.injEq] at hd
  rcases hd with ⟨rfl, rfl⟩ | ⟨rfl, rfl⟩ | ⟨rfl, rfl⟩ | ⟨rfl, rfl⟩ | ⟨rfl, rfl⟩ | ⟨rfl, rfl⟩ | ⟨rfl, rfl⟩ |
    ⟨rfl, rfl⟩ | ⟨rfl, rfl⟩ | ⟨rfl, rfl⟩ | ⟨rfl, rfl⟩ | ⟨rfl, rfl⟩ | ⟨rfl, rfl⟩ | ⟨rfl, rfl⟩ | ⟨rfl, rfl⟩ |
    ⟨rfl, rfl⟩ | ⟨rfl, rfl⟩ | ⟨rfl, rfl⟩ | ⟨rfl, rfl⟩ | ⟨rfl, rfl⟩ | ⟨rfl, rfl⟩ | ⟨rfl, rfl⟩ | ⟨rfl, rfl⟩ |
    ⟨rfl, rfl⟩ | ⟨rfl, rfl⟩ | ⟨rfl, rfl⟩ | ⟨rfl, rfl⟩ | ⟨rfl, rfl⟩ | ⟨rfl, rfl⟩
  · exact readMemory
  · exact writeMemory
  · exact getRegister
  · exact setRegister
  · exact readUntypedMemory
  · exact writeUntypedMemory
  · exact codeletExecute
  · exact insertPage
  · exact extractPage
  · exact unmapPage
  · exact setMemoryMap
  · exact getDirtyPages
  · exact setExceptionConfig
  · exact clearException
  · exact resumeVm
  · exact queryState
  · exact continueFromPagefault
  · exact infoException
  · exact pagefault
  · exact state
  · exact replyState
  · exact replyOk
  · exact replyError
  · exact replyReadMemory
  · exact replyGetRegister
  · exact replyExtractPage
  · exact replyGetDirtyPages
  · exact replyReadUntypedMemory
  · exact replyCodeletExecutionFinished

theorem mem_of_lookup {op : Byte} {d : MessageDeclaration} (h : messageDeclarations.lookup op = some d) :
    (op, d) ∈ messageDeclarations := by
  obtain ⟨l₁, l₂, hl, -⟩ := List.lookup_eq_some_iff.mp h
  rw [hl]
  exact List.mem_append_right _ (List.mem_cons_self ..)

theorem lookup_opcode {op : Byte} {d : MessageDeclaration} (hd : (op, d) ∈ messageDeclarations) :
    messageDeclarations.lookup op = some d := by
  revert op d
  apply declarations_cases <;> rfl

theorem lookup_name {op : Byte} {d : MessageDeclaration} (hd : (op, d) ∈ messageDeclarations) :
    messageNameDictionary.lookup d.name = some (op, d) := by
  revert op d
  apply declarations_cases <;> rfl

section Declared
variable {op : Byte} {d : MessageDeclaration} {options : List (String × FieldValue)}

theorem attr_eq {name field : String} {v : FieldValue} (h : options.lookup field = some v) :
    AvatarMessage.attr ⟨op, name, options⟩ field = .ok v := by
  simp only [AvatarMessage.attr, h]

theorem createAvatarMessage_eq (hd : (op, d) ∈ messageDeclarations) :
    createAvatarMessage d.name options = .ok ⟨op, d.name, options⟩ := by
  simp only [createAvatarMessage, lookup_name hd]

theorem packer_eq (hd : (op, d) ∈ messageDeclarations) :
    AvatarMessage.packer ⟨op, d.name, options⟩ = d.pack ⟨op, d.name, options⟩ := by
  simp only [AvatarMessage.packer, lookup_name hd]

theorem serialize_eq (hd : (op, d) ∈ messageDeclarations) {payload : List Byte}
    (hpack : d.pack ⟨op, d.name, options⟩ = .ok (.bytes payload)) :
    AvatarMessage.serialize ⟨op, d.name, options⟩ = .ok (op :: payload) := by
  simp only [AvatarMessage.serialize, packer_eq hd, hpack, bind, Except.bind]

end Declared

end Avatar
