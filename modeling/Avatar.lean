import Avatar.Lib.Bytes
import Avatar.Lib.Stuffing
import Avatar.Lib.Crc
import Avatar.Lib.CrcPolynomial
import Avatar.Lib.Ascii
import Avatar.Lib.Numeral
import Avatar.Lib.InstructionList
import Avatar.Lib.Json
import Avatar.Lib.JsonText
import Avatar.Lib.Traversal
import Avatar.Lib.StateExcept
import Avatar.Lib.Lines
import Avatar.Lib.Transition
import Avatar.Lib.TwoRuns
import Avatar.Lib.WordMemory
import Avatar.Lib.Worklist
import Avatar.Lib.Flags
import Avatar.Lib.FloatDivision
import Avatar.Lib.Thumb
import Avatar.Lib.Ssa
import Avatar.Lib.SsaMemory
import Avatar.Lib.SsaTyping
import Avatar.Lib.SsaCalls
import Avatar.Lib.SsaRemote
import Avatar.Util.Checksum
import Avatar.Debuggable
import Avatar.System
import Avatar.AvatarStub.Messages
import Avatar.AvatarStub.Lowlevel
import Avatar.AvatarStub.Operations
import Avatar.AvatarStub.Protocol
import Avatar.Targets.Avatarstub
import Avatar.AvatarStub.Wire
import Avatar.Gdb.ProtocolLowlevel
import Avatar.Gdb.Protocol
import Avatar.Gdb.GdbServer
import Avatar.Bintools.GdbDebugger
import Avatar.Bintools.MiParser
import Avatar.Bintools.Mi
import Avatar.Bintools.GdbEvents
import Avatar.Emulators.S2eEmulator
import Avatar.Targets.GdbserverTarget
import Avatar.Translator.Thumb
import Avatar.Translator.Translators
import Avatar.Translator.InstrumentBasicBlock
import Avatar.Translator.InstrumentMemoryAccessPass
import Avatar.Translator.Cache
import Avatar.Translator.Typing
import Avatar.Translator.BinaryTranslator
import Avatar.Translator.Compile
import Avatar.Translator.Graph
import Avatar.Translator.Build
import Avatar.Translator.Pieces
import Avatar.Translator.Semantics
import Avatar.Translator.Accesses
import Avatar.Translator.Effects
import Avatar.Plugins.MemoryRangeIdentifier
import Avatar.Interfaces.S2eRemoteMemory
import Avatar.Theorems.Framing
import Avatar.Theorems.CrcDetection
import Avatar.Theorems.GdbPackets
import Avatar.Theorems.GdbReceiver
import Avatar.Theorems.GdbRegisters
import Avatar.Theorems.GdbReplies
import Avatar.Theorems.GdbMemory
import Avatar.Theorems.MessageCrc
import Avatar.Theorems.MessageRoundTrip
import Avatar.Theorems.Commands
import Avatar.Theorems.BulkWrite
import Avatar.Theorems.Breakpoints
import Avatar.Theorems.TypedAccess
import Avatar.Theorems.ReplyPairing
import Avatar.Theorems.SelfDeadlock
import Avatar.Theorems.SenderSurvival
import Avatar.Theorems.FailureReport
import Avatar.Theorems.Independence
import Avatar.Theorems.WellFormedGraph
import Avatar.Theorems.Simulation
import Avatar.Theorems.LogicAndMemory
import Avatar.Theorems.Mediation
import Avatar.Theorems.Arithmetic
import Avatar.Theorems.PushLayout
import Avatar.Theorems.CompareAndBranch
import Avatar.Theorems.Termination
import Avatar.Theorems.PageTable
import Avatar.Theorems.GdbBreakpoints
import Avatar.Theorems.StopReplies
import Avatar.Theorems.EventDelivery
import Avatar.Theorems.RemoteMemory
import Avatar.Theorems.CrcReference
import Avatar.Theorems.ParserErrors
import Avatar.Theorems.RemoteErrors
import Avatar.Theorems.BulkRead
import Avatar.Theorems.GdbMemoryWrite
import Avatar.Theorems.IoDetection
import Avatar.Theorems.Instrumentation
import Avatar.Theorems.InstrumentedBlocks
import Avatar.Theorems.RegisterEncodings
import Avatar.Theorems.CorruptedPackets
import Avatar.Theorems.CodeSize
import Avatar.Theorems.BreakpointOptions
import Avatar.Theorems.RejectedEvents
import Avatar.Theorems.Architecture
import Avatar.Theorems.Preservation
import Avatar.Theorems.RemotePreservation
import Avatar.Theorems.MiTotality
import Avatar.Theorems.MiRoundTrip
import Avatar.Theorems.MiEmptyTuples
import Avatar.Theorems.MiReader
import Avatar.Theorems.MiSession
import Avatar.Theorems.BreakpointQueues
import Avatar.Emulators.Emulator
import Avatar.Theorems.DebuggedDevice
import Avatar.Theorems.Forwarding
