import Chip8.Machine.Narration

/-!
# Sessions

A machine together with the logger that traces it.  The logger is told what the machine does while
it does it; what the machine does is the same without it (`Session.perform_act`).
-/

namespace Chip8

structure Session where
  machine : Machine
  logger : Logger
deriving DecidableEq, Repr

/-- What the user of a session can ask for. -/
inductive Command where
  | act (action : Action)
  | setLogs (on : Bool)
  | toggleLogs
deriving DecidableEq, Repr

/-- What a command leaves behind: the session, a result or the reason for failing, and what was
written. -/
structure Response where
  session : Session
  result : Except ActionError Answer
  entries : List LogEntry

namespace Session

/-- Performs a command. -/
def perform (s : Session) : Command → Response
  | .act action =>
    let (after, entries) := s.machine.narrate s.logger action
    ⟨{ s with machine := after.machine }, after.result, entries⟩
  | .setLogs on => ⟨{ s with logger := s.logger.setLogs on }, .ok .done, []⟩
  | .toggleLogs =>
    let (logger, entries) := s.logger.toggle
    ⟨{ s with logger := logger }, .ok (.flag logger.on), entries⟩

/-- What an action leaves behind is left by the machine alone, and what is written is its trace. -/
theorem perform_act (s : Session) (action : Action) :
    s.perform (.act action) =
      ⟨{ s with machine := (s.machine.perform action).machine }, (s.machine.perform action).result,
        s.logger.logAll fun _ => s.machine.trace action⟩ := by
  simp only [perform, Machine.narrate_eq]

end Session

end Chip8
