import Avatar.Bintools.GdbDebugger

/-! The registers and breakpoints of the emulator (`avatar/emulators/s2e/s2e_emulator.py`): it hands each call to its
    debugger. -/

namespace Avatar.S2EEmulator
variable {σ : Type} (gdb : Gdb σ)

def setRegister (reg : RegisterName) (val : GdbServer.RegisterValue) : GdbDebugger.DebuggerM σ Unit :=
  GdbDebugger.setRegister gdb reg val

def getRegisterFromNr (reg_nr : Int) : GdbDebugger.DebuggerM σ Int := GdbDebugger.getRegisterFromNr gdb reg_nr

def getRegister (reg : String) : GdbDebugger.DebuggerM σ Int := GdbDebugger.getRegister gdb reg

def setBreakpoint (address : Int) (properties : List (String × PyValue)) :
    GdbDebugger.DebuggerM σ GdbDebugger.Breakpoint := GdbDebugger.setBreakpoint gdb address properties

/-- The emulator as a server sees it -/
def registerAccess : GdbServer.RegisterAccess DebuggerError (GdbDebugger σ) where
  python := .python
  getRegister := getRegister gdb
  getRegisterFromNr := getRegisterFromNr gdb
  setRegister := setRegister gdb

end Avatar.S2EEmulator
