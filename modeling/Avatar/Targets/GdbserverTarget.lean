import Avatar.Bintools.GdbDebugger
import Avatar.CallProxy

/-! The target behind a gdb server (`avatar/targets/gdbserver_target.py`): it hands each call to its debugger. -/

namespace Avatar.GdbserverTarget
variable {σ : Type} (gdb : Gdb σ)

def writeTypedMemory (address size data : Int) : GdbDebugger.DebuggerM σ Unit := GdbDebugger.writeMemory gdb address size data

def readTypedMemory (address size : Int) : GdbDebugger.DebuggerM σ Int := GdbDebugger.readMemory gdb address size

/-- What `"%s"` makes of it -/
def registerName : RegisterKey → RegisterName
  | .name reg => .str reg
  | .number reg => .int reg
  | .truth reg => .str (if reg then "True" else "False")

def setRegister (reg : RegisterKey) (val : Int) : GdbDebugger.DebuggerM σ Unit :=
  GdbDebugger.setRegister gdb (registerName reg) (.int val)

def getRegister (reg : String) : GdbDebugger.DebuggerM σ Int := GdbDebugger.getRegister gdb reg

def getChecksum (addr size : Int) : GdbDebugger.DebuggerM σ Int := GdbDebugger.getChecksum gdb addr size

def cont (running : Gdb σ) : GdbDebugger.DebuggerM σ Unit := GdbDebugger.cont running

def setBreakpoint (address : Int) (properties : List (String × PyValue)) :
    GdbDebugger.DebuggerM σ GdbDebugger.Breakpoint := GdbDebugger.setBreakpoint gdb address properties

/-- The target as the emulator's requests see it. `running` is `sync_cmd` for the commands that expect `running`. -/
def requested (running : Gdb σ) : TargetAccess DebuggerError (GdbDebugger σ) where
  python := .python
  readTypedMemory := readTypedMemory gdb
  writeTypedMemory := writeTypedMemory gdb
  setRegister := setRegister gdb
  getRegister := getRegister gdb
  cont := cont running
  getChecksum := getChecksum gdb

end Avatar.GdbserverTarget
