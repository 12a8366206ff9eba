import Chip8.Launch
import Chip8.Window.Script

/-!
# The command line program

A host without graphics: events are read from standard input, one a line, with the symbols of the
standard keyboard, and the screen is printed whenever its picture changes.
-/

namespace Chip8.Host

/-- The problem behind an error of the system, with its number and its wording. -/
def problem : IO.Error → FileProblem
  | .noFileOrDirectory _ code text | .interrupted _ code text => .onOpening code text
  | .alreadyExists name code text | .invalidArgument name code text
  | .permissionDenied name code text | .resourceExhausted name code text
  | .inappropriateType name code text | .noSuchThing name code text => ⟨code, text, name.isSome⟩
  | .otherError code text | .resourceBusy code text | .resourceVanished code text
  | .unsupportedOperation code text | .hardwareFault code text
  | .unsatisfiedConstraints code text | .illegalOperation code text | .protocolError code text
  | .timeExpired code text => ⟨code, text, false⟩
  | .unexpectedEof => ⟨0, "Unexpected end of file", false⟩
  | .userError text => ⟨0, text, false⟩

/-- Reads a file. -/
def readFile (path : String) : IO (Except ReadError (List UInt8)) := do
  if path.toList.contains (Char.ofNat 0) then return .error .zeroInName
  try
    return .ok (← IO.FS.readBinFile path).toList
  catch e =>
    return .error (.refused (problem e))

/-- Prints the effects of an event, and tells whether the window stays open. -/
def perform (w : Window) (effects : List Effect) : IO Bool := do
  for effect in effects do
    match effect with
    | .setImage _ => IO.println w.session.machine.screen.text
    | .setCaption title => IO.println title
    | .clear | .blit .. | .close | .closed => pure ()
  return !(effects.contains .close || effects.contains .closed)

/-- Plays the events of standard input. -/
partial def play (w : Window) : IO UInt32 := do
  let line ← (← IO.getStdin).getLine
  if line = "" then return UInt32.ofNat w.exitCode
  match WindowEvent.ofLine? line with
  | none => play w
  | some event =>
    let reaction := w.handle event
    IO.eprint (Notice.join reaction.notices)
    if reaction.unhandled.isSome then return 1
    if ← perform reaction.window reaction.effects then play reaction.window
    else return UInt32.ofNat reaction.window.exitCode

/-- Runs the application. -/
def run (args : List String) : IO UInt32 := do
  let contents ← match CommandLine.Request.ofArguments args with
    | .ok (.run settings) => readFile settings.rom
    | _ => pure (.ok [])
  let launch := Launch.ofArguments .standard args fun _ => contents
  IO.eprint (Notice.join launch.notices)
  match launch.result with
  | .help text => IO.print text; return 0
  | .refused => return 1
  | .failed (.request e) => IO.eprintln e.message; return 1
  | .failed (.rom e) => IO.eprintln e.message; return 1
  | .failed (.rate e) => IO.eprintln e.message; return 1
  | .opened w => play w

end Chip8.Host

def main (args : List String) : IO UInt32 :=
  Chip8.Host.run args
