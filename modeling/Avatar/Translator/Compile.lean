import Avatar.Lib.Bytes

/-! The end of `BinaryTranslator::compile` (`InstructionDecoder.cpp`): LLVM has written the machine code to sections
    that `RecordingMemoryManager` allocated, and the code is copied out of them. -/

namespace Avatar.Translator
open Bytes

/-- `sys::MemoryBlock`, with what is stored in it. Mapped memory is aligned, and neither at the null pointer nor
    across the end of the address space. -/
structure MemoryBlock where
  base : BitVec 64
  contents : List Byte
  aligned : base.toNat % 4 = 0
  nonnull : base ≠ 0
  fits : base.toNat + contents.length < 2 ^ 64

/-- The sections that have been allocated. -/
structure RecordingMemoryManager where
  allocatedDataMem : List MemoryBlock
  allocatedCodeMem : List MemoryBlock

inductive CompileError where
  | exception (description : String)
  /-- What the program does is not defined. -/
  | undefined
deriving DecidableEq, Repr

namespace MemoryBlock

/-- `*ptr`, for a pointer to 32 bits -/
def load (block : MemoryBlock) (ptr : BitVec 64) : Except CompileError Nat :=
  let offset := (ptr - block.base).toNat
  if offset + 4 ≤ block.contents.length then .ok (ofLE (slice block.contents offset (offset + 4)))
  else .error .undefined

theorem base_ge (block : MemoryBlock) : 4 ≤ block.base.toNat := by
  have hbase : block.base.toNat ≠ 0 := fun h => block.nonnull (BitVec.eq_of_toNat_eq h)
  have haligned := block.aligned
  omega

/-- The loop over the words of a section, from the last one down -/
def codeSizeLoop (block : MemoryBlock) (ptr : BitVec 64) : Except CompileError (BitVec 64) :=
  if _h : ptr > block.base then do
    let word ← block.load ptr
    if word ≠ 0 then return ptr - block.base + 4
    codeSizeLoop block (ptr - 4)
  else .ok 0
termination_by ptr.toNat
decreasing_by
  have hbase := block.base_ge
  have hlt : block.base.toNat < ptr.toNat := _h
  rw [BitVec.toNat_sub_of_le (BitVec.le_def.mpr (Nat.le_of_lt (Nat.lt_of_le_of_lt hbase hlt)))]
  exact Nat.sub_lt (by omega) (by decide)

/-- The `code_size` of a section -/
def codeSize (block : MemoryBlock) : Except CompileError (BitVec 64) :=
  block.codeSizeLoop (block.base + BitVec.ofNat 64 block.contents.length - 4)

end MemoryBlock

structure CompiledCode where
  address : BitVec 64
  data : List Byte
  size : BitVec 32
deriving DecidableEq, Repr

/-- The constructor of `CompiledCode` copies `size` bytes. -/
def CompiledCode.create (address : BitVec 64) (data : List Byte) (size : BitVec 32) : CompiledCode :=
  ⟨address, data.take size.toNat, size⟩

/-- What `compile` does with the sections. The size is passed as an `unsigned`. -/
def compile (memoryManager : RecordingMemoryManager) : Except CompileError CompiledCode := do
  match memoryManager.allocatedCodeMem with
  | [codeSection] =>
    if memoryManager.allocatedDataMem.isEmpty then
      let code_size ← codeSection.codeSize
      return CompiledCode.create 0 codeSection.contents (code_size.setWidth 32)
    else .error (.exception "Expected no data section after compilation")
  | _ => .error (.exception "Expected exactly one code section after compilation")

end Avatar.Translator
