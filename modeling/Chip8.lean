import Chip8.Main
import Chip8.Proofs.Decoding
import Chip8.Proofs.OpcodeTable
import Chip8.Proofs.Failure
import Chip8.Proofs.Invariant
import Chip8.Proofs.Frame
import Chip8.Proofs.History
import Chip8.Proofs.CallDiscipline
import Chip8.Proofs.Compositing
import Chip8.Proofs.Display
import Chip8.Application
import Chip8.Proofs.Events
import Chip8.Proofs.ErrorStream
import Chip8.Proofs.Halting
import Chip8.Proofs.Arguments
import Chip8.Proofs.Reporting
import Chip8.Proofs.Replay
import Chip8.Proofs.Transparency
import Chip8.Proofs.CheckedBytes
import Chip8.Proofs.DelayTimer
import Chip8.Proofs.Overlay
import Chip8.Proofs.Inputs
import Chip8.Proofs.Replies
import Chip8.Proofs.UnreadMemory
import Chip8.Proofs.StaleSlots
import Chip8.Proofs.LoggerStates
import Chip8.Proofs.Numerals
import Chip8.Proofs.Spellings
import Chip8.Proofs.OptionGroups
import Chip8.Proofs.Collisions
import Chip8.Proofs.Views
import Chip8.Proofs.StraightLine
import Chip8.Proofs.Runs
import Chip8.Proofs.Hexadecimal
import Chip8.Proofs.Parity
import Chip8.Proofs.Disassembly
import Chip8.Proofs.TraceLines
import Chip8.Proofs.Tracing
import Chip8.Proofs.OpcodeGrammar
import Chip8.Proofs.KeyHistory
import Chip8.Proofs.Wording
import Chip8.Proofs.HexDump
import Chip8.Proofs.RegisterLine
import Chip8.Proofs.HostKeymap
import Chip8.Proofs.HaltDump
