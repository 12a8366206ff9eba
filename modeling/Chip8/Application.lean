import Chip8.Launch

/-!
# The application

A whole run of the application: the launch, and the events of the window until its host has no more
of them.  The application ends with a code, unless a failure that nothing handles ends it.
-/

namespace Chip8

/-- The failures that nothing handles. -/
inductive Escape where
  | launch (cause : LaunchFailure)
  | event (e : ActionError)

/-- How a run ends. -/
inductive Ending where
  /-- The application is left with code 0 as soon as the help text is shown. -/
  | help (text : String)
  | returned (code : Nat)
  | escaped (e : Escape)

/-- A run that has ended: what the user was told, and how it ended. -/
structure Run where
  notices : List Notice
  ending : Ending

namespace Run

/-- What stands on the error stream. -/
def errorText (r : Run) : String :=
  Notice.join r.notices

/-- The run with notices before its own. -/
def withNotices (notices : List Notice) (r : Run) : Run :=
  { r with notices := notices ++ r.notices }

end Run

/-- Runs a window with the events that its host has for it.  A failure that the window does not
handle ends the run at once. -/
def Window.run (w : Window) : List WindowEvent → Run
  | [] => ⟨[], .returned w.exitCode⟩
  | e :: es =>
    let reaction := w.handle e
    match reaction.unhandled with
    | some failure => ⟨reaction.notices, .escaped (.event failure)⟩
    | none => (reaction.window.run es).withNotices reaction.notices

namespace Application

/-- Runs the application with a command line and the events of its window, given the keyboard of the
host and how files are read. -/
def run (keyboard : Keyboard) (words : List String)
    (read : String → Except ReadError (List UInt8)) (events : List WindowEvent) : Run :=
  let launch := Launch.ofArguments keyboard words read
  match launch.result with
  | .help text => ⟨launch.notices, .help text⟩
  | .refused => ⟨launch.notices, .returned 1⟩
  | .failed cause => ⟨launch.notices, .escaped (.launch cause)⟩
  | .opened w => (w.run events).withNotices launch.notices

end Application

end Chip8
