import Chip8.Diagnostic
import Chip8.Logger

/-!
# Notices

What the application tells its user on the error stream.
-/

namespace Chip8

inductive Notice where
  | logged (entry : LogEntry)
  /-- The command line is refused. -/
  | badArguments (d : Diagnostic)
  /-- The program cannot be loaded. -/
  | startFailed (d : Diagnostic)
  /-- The running program has failed. -/
  | emulationError (d : Diagnostic)
deriving DecidableEq, Repr

namespace Notice

def text : Notice → String
  | logged entry => entry.text
  | badArguments d => "Problem parsing arguments: " ++ d.text ++ "\n"
  | startFailed d => "Error: " ++ d.text ++ "\n"
  | emulationError d => "Emulation error: " ++ d.text ++ "\n"

/-- Whether a notice stands in the log.  All others report a failure. -/
def isLogged : Notice → Bool
  | logged _ => true
  | badArguments _ | startFailed _ | emulationError _ => false

/-- Notices as they appear one after the other. -/
def join (notices : List Notice) : String :=
  String.join (notices.map text)

end Notice

end Chip8
