import Avatar.Translator.Cache

/-! `BinaryTranslator` (`InstructionDecoder.cpp`) and `instrument_memory_access` (`c_interface.cpp`). The
    disassembler and the compiler belong to another program and are parameters. -/

namespace Avatar.Translator
open Bytes EmitM

/-! ### The entry and the exit -/

/-- `decode_cpsr_to_flags` -/
def decodeCpsrToFlags : EmitM Unit := do
  let cpsr ← getValue .cpsr
  setValue .flagZ (bit cpsr 30)
  setValue .flagN (bit cpsr 31)
  setValue .flagC (bit cpsr 29)
  setValue .flagV (bit cpsr 28)

/-- `encode_flags_to_cpsr` -/
def encodeFlagsToCpsr : EmitM Unit := do
  let cpsr ← getValue .cpsr
  let z ← getValue .flagZ
  let n ← getValue .flagN
  let c ← getValue .flagC
  let v ← getValue .flagV
  let at' (flag : Value) (i : Int) : Value := .binary .shl (.zext flag) (int32 i)
  let flags := .binary .or (.binary .or (at' z 30) (at' n 31)) (.binary .or (at' c 29) (at' v 28))
  setValue .cpsr (.binary .or (.binary .and cpsr (int32 0x0FFFFFFF)) flags)

/-- The code of the entry block. The handlers are loaded and used by the instrumentation only. -/
def genCodeEntry (function : Nat) : EmitM Unit := do
  _ ← insert (.load .i32 (.member (function, .instrumentationFunctions) 0) none)
  _ ← insert (.load .i32 (.member (function, .instrumentationFunctions) 1) none)
  forM registerDescription.zipIdx fun (register, index) => do
    setValue register (← insert (.load .i32 (.member (function, .processorRegisters) index) none))
  decodeCpsrToFlags

/-- The registers, stored to the structure. -/
def storeRegisters (function : Nat) : EmitM Unit := do
  encodeFlagsToCpsr
  forM registerDescription.zipIdx fun (register, index) => do
    _ ← insert (.store (← getValue register) (.member (function, .processorRegisters) index) none)

/-- The code of an exit, for the function that is being translated. -/
def genCodeExit (function : Nat) : EmitM Unit := do
  storeRegisters function
  _ ← insert .retVoid

/-! ### The worklist -/

/-- `Ranges` -/
abbrev Ranges := List (BitVec 64 × BitVec 64)

/-- `Ranges::is_in_range` -/
def Ranges.isInRange (ranges : Ranges) (val : BitVec 64) : Bool :=
  ranges.any fun (start, stop) => start ≤ val && val < stop

/-- What a translation reads. -/
structure Source where
  disassembler : Disassembler
  memory : CodeMemory
  entryPc : BitVec 64
  pcRanges : Ranges

/-- A byte of code memory; 0 where the callback gives none. -/
def readByte (memory : CodeMemory) (address : BitVec 64) : Byte := (readBytes memory address 1).2.headD 0

/-- Whether the four bytes at `pc` are a `BX` of the ARM instruction set. -/
def isBX (memory : CodeMemory) (pc : BitVec 64) : Bool :=
  let opcode := readByte memory (pc + 3) ++ readByte memory (pc + 2) ++ readByte memory (pc + 1) ++
    readByte memory pc
  opcode &&& 0xFFFFFFF0#32 == 0xE12FFF10#32

/-- The instruction at a program counter; none if it is potentially invalid, which the translator accepts
    without translating it. -/
def decode (source : Source) (pc : BitVec 64) : Except Failure (Option MCInst) :=
  let decoded := source.disassembler source.memory pc
  match decoded.status with
  | .fail => if isBX source.memory pc then .ok (some ⟨.bx, [.reg .lr], pc, decoded.size⟩) else .error (.disassembler pc)
  | .softFail => .ok none
  | .success => .ok (some ⟨decoded.opcode, decoded.operands, pc, decoded.size⟩)

/-- `translateSingleInstruction` -/
def translateSingleInstruction (source : Source) (unfinished : Unfinished) : CacheM Unit := do
  match ← MonadExcept.ofExcept (decode source unfinished.unit.pc) with
  | none => return
  | some inst =>
    match instructionTranslator source.memory inst.opcode with
    | none => throw (.unknownOpcode inst)
    | some translator =>
      let (successor, values) ← CacheM.emit unfinished.function unfinished.unit.head unfinished.values
        (translator inst)
      CacheM.finish unfinished.function unfinished.unit.head values inst successor

/-- The body of the loop in `translate`, for the function `function`. -/
def process (source : Source) (function : Nat) (unfinished : Unfinished) : CacheM Unit := do
  if unfinished.deleted then throw .abort
  if source.pcRanges.isInRange unfinished.unit.pc then translateSingleInstruction source unfinished
  else discard <| CacheM.emit unfinished.function unfinished.unit.head unfinished.values (genCodeExit function)

/-- How the loop ended, with the units that it processed: their functions and program counters. -/
structure Outcome where
  trace : List (Nat × BitVec 64)
  failure : Option Failure
  cache : Cache

/-- The loop in `translate`, for at most `fuel` iterations. -/
def translateLoop (source : Source) (function fuel : Nat) (c : Cache) : Option Outcome :=
  match c.unfinished with
  | [] => some ⟨[], none, c⟩
  | unfinished :: rest =>
    match fuel with
    | 0 => none
    | fuel + 1 =>
      let unit := (unfinished.function, unfinished.unit.pc)
      match process source function unfinished { c with unfinished := rest } with
      | .ok () c => (translateLoop source function fuel c).map fun o => { o with trace := unit :: o.trace }
      | .error failure c => some ⟨[unit], some failure, c⟩

/-- The constructor of `BinaryTranslator`, for a wrapper function that is created at the address `function`. -/
def construct (source : Source) (function : Nat) : CacheM Unit := do
  CacheM.modifyFunction function fun f => { f with blocks := [⟨[], []⟩] }
  let (_, values) ← CacheM.emit function 0 [] (genCodeEntry function)
  discard <| CacheM.findCreate function source.entryPc values 0 true

/-! ### `instrument_memory_access` -/

/-- What the compiler does with a module. -/
inductive Compilation where
  | compiled
  | exception
  | abort
deriving DecidableEq, Repr

/-- How a call of `instrument_memory_access` ends. -/
inductive Result where
  | returned (code : Int)
  | exception
  | abort
deriving DecidableEq, Repr

/-- `delete engine` deletes the function. The cache keeps its units, whose blocks are gone. -/
def Cache.deleteFunction (function : Nat) (c : Cache) : Cache where
  functions := Function.update c.functions function
    ⟨(c.functions function).stale ++ (c.functions function).units.map (·.pc), [], []⟩
  unfinished := c.unfinished.map fun u => if u.function = function then { u with deleted := true } else u

/-- A call of `instrument_memory_access`: what it reads, the address of the function that it creates, and what
    becomes of the blocks: they may be instrumented, and are compiled. -/
structure Call where
  source : Source
  function : Nat
  compile : List BasicBlock → Compilation

/-- What a call leaves: the units that it processed, the failure of the loop, its function as it is compiled, its
    result and the cache. -/
structure Done where
  trace : List (Nat × BitVec 64)
  failure : Option Failure
  wrapper : FunctionState
  result : Result
  cache : Cache

/-- A call that ends with the process. -/
def Done.aborted (function : Nat) (c : Cache) : Done := ⟨[], some .abort, c.functions function, .abort, c⟩

/-- What follows the translation, where every exception was caught: the module is compiled in any case. -/
def finishCall (call : Call) (o : Outcome) : Done :=
  let wrapper := o.cache.functions call.function
  if o.failure = some .abort then ⟨o.trace, o.failure, wrapper, .abort, o.cache⟩
  else match call.compile wrapper.blocks with
    | .compiled => ⟨o.trace, o.failure, wrapper, .returned 0, o.cache.deleteFunction call.function⟩
    | .exception => ⟨o.trace, o.failure, wrapper, .exception, o.cache⟩
    | .abort => ⟨o.trace, o.failure, wrapper, .abort, o.cache⟩

section Finish
variable {call : Call} {o : Outcome}

theorem finishCall_failure : (finishCall call o).failure = o.failure := by
  rw [finishCall]
  split
  · rfl
  · split <;> rfl

theorem finishCall_wrapper : (finishCall call o).wrapper = o.cache.functions call.function := by
  rw [finishCall]
  split
  · rfl
  · split <;> rfl

theorem finishCall_result {code : Int} (h : (finishCall call o).result = .returned code) : code = 0 := by
  rw [finishCall] at h
  split at h
  · cases h
  · split at h <;> cases h
    rfl

end Finish

/-- `instrument_memory_access`. Each unit that is queued at the start stands for at most one unit for each
    program counter, which bounds the iterations. -/
def instrumentMemoryAccess (call : Call) (c : Cache) : Option Done :=
  match construct call.source call.function c with
  | .error _ c => some (.aborted call.function c)
  | .ok () c =>
    if call.source.pcRanges.isInRange call.source.entryPc then
      (translateLoop call.source call.function (2 ^ 64 * c.unfinished.length) c).map (finishCall call)
    else some (.aborted call.function c)

end Avatar.Translator
