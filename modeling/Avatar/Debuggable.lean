import Avatar.Lib.Bytes

/-! The untyped memory accesses that `avatar/debuggable.py` gives to every `Debuggable`, in terms of
    the typed ones that a subclass defines. -/

namespace Avatar
open Bytes

namespace Debuggable
variable {m : Type → Type} [Monad m]

/-- Read one byte at a time. -/
def readUntypedMemory {α : Type} (readTypedMemory : Int → Int → m α) (address : Int) : Nat → m (List α)
  | 0 => pure []
  | length + 1 => do
    let byte ← readTypedMemory address 1
    let data ← readUntypedMemory readTypedMemory (address + 1) length
    pure (byte :: data)

/-- Write one byte at a time. -/
def writeUntypedMemory (writeTypedMemory : Int → Int → Int → m Unit) (address : Int) : List Byte → m Unit
  | [] => pure ()
  | byte :: data => do
    writeTypedMemory address 1 byte.toNat
    writeUntypedMemory writeTypedMemory (address + 1) data

end Debuggable

end Avatar
