import Chip8.CommandLine.Help
import Chip8.CommandLine.Request
import Chip8.Rom
import Chip8.Window.Event

/-!
# Launching

From the command line to the open window: the request is read, the program is loaded into a new
machine, and the window opens.  Whatever is refused on the way is reported and ends the application
with code 1.
-/

namespace Chip8

/-- The failures that the application does not report by itself. -/
inductive LaunchFailure where
  | request (e : CommandLine.Error)
  | rom (e : RomError)
  | rate (e : RateTooLarge)

/-- How far the application comes. -/
inductive LaunchResult where
  /-- The help text is shown, and the application ends with code 0. -/
  | help (text : String)
  /-- Something is refused, and the application ends with code 1. -/
  | refused
  | opened (w : Window)
  | failed (cause : LaunchFailure)

/-- The result of a launch and what the user is told on the way. -/
structure Launch where
  notices : List Notice
  result : LaunchResult

namespace Launch

/-- The machine that runs a loaded program. -/
def machine (memory : Memory) : Machine :=
  .start memory .standard

/-- The logger with which a run begins. -/
def logger (settings : Settings) : Logger :=
  (Logger.initial false).setLogs settings.verbose

/-- Launches a run, given what reading the program file has brought. -/
def run (keyboard : Keyboard) (settings : Settings) (contents : Except ReadError (List UInt8)) :
    Launch :=
  let (loaded, entries) := Rom.loadFile (logger settings) settings.rom contents
  let notices := Window.logged entries
  match loaded with
  | .ok memory =>
    match Window.start keyboard ⟨machine memory, logger settings⟩ settings with
    | .ok w => ⟨notices, .opened w⟩
    | .error e => ⟨notices, .failed (.rate e)⟩
  | .error e =>
    match e.diagnostic? with
    | some d => ⟨notices ++ [.startFailed d], .refused⟩
    | none => ⟨notices, .failed (.rom e)⟩

/-- Launches the application with a command line, given how files are read. -/
def ofArguments (keyboard : Keyboard) (words : List String)
    (read : String → Except ReadError (List UInt8)) : Launch :=
  match CommandLine.Request.ofArguments words with
  | .error e =>
    match e.diagnostic? with
    | some d => ⟨[.badArguments d], .refused⟩
    | none => ⟨[], .failed (.request e)⟩
  | .ok .help => ⟨[], .help CommandLine.helpText⟩
  | .ok (.run settings) => run keyboard settings (read settings.rom)

/-- How far a run comes does not depend on what it writes. -/
theorem result_run (keyboard : Keyboard) (settings : Settings)
    (contents : Except ReadError (List UInt8)) :
    (run keyboard settings contents).result =
      match Rom.load settings.rom contents with
      | .ok memory =>
        match Window.start keyboard ⟨machine memory, logger settings⟩ settings with
        | .ok w => .opened w
        | .error e => .failed (.rate e)
      | .error e =>
        match e.diagnostic? with
        | some _ => .refused
        | none => .failed (.rom e) := by
  unfold run
  rw [← Rom.fst_loadFile (logger settings)]
  rcases Rom.loadFile (logger settings) settings.rom contents with ⟨e | memory, entries⟩
  · simp only
    split <;> rfl
  · simp only
    split <;> rfl

/-- The report that a program cannot be loaded. -/
def refusal (path : String) (contents : Except ReadError (List UInt8)) : List Notice :=
  match Rom.load path contents with
  | .ok _ => []
  | .error e => (e.diagnostic?.map Notice.startFailed).toList

/-- A run writes about its program, and reports no more than that it cannot be loaded. -/
theorem notices_run (keyboard : Keyboard) (settings : Settings)
    (contents : Except ReadError (List UInt8)) :
    (run keyboard settings contents).notices =
      Window.logged (Rom.loadFile (logger settings) settings.rom contents).2 ++
        refusal settings.rom contents := by
  unfold run refusal
  rw [← Rom.fst_loadFile (logger settings)]
  rcases Rom.loadFile (logger settings) settings.rom contents with ⟨e | memory, entries⟩
  · cases hd : e.diagnostic? <;> simp [hd]
  · cases hstart : Window.start keyboard ⟨machine memory, logger settings⟩ settings <;> simp [hstart]

/-- The window opens if the program can be loaded and the window can be started. -/
theorem result_eq_opened_iff {keyboard : Keyboard} {settings : Settings}
    {contents : Except ReadError (List UInt8)} {w : Window} :
    (run keyboard settings contents).result = .opened w ↔
      ∃ memory, Rom.load settings.rom contents = .ok memory ∧
        Window.start keyboard ⟨machine memory, logger settings⟩ settings = .ok w := by
  rw [result_run]
  cases Rom.load settings.rom contents with
  | error e =>
    simp only [reduceCtorEq, false_and, exists_false, iff_false]
    split <;> simp only [reduceCtorEq, not_false_eq_true]
  | ok memory =>
    simp only [Except.ok.injEq, exists_eq_left']
    split <;> simp_all only [LaunchResult.opened.injEq, Except.ok.injEq, reduceCtorEq]

end Launch

end Chip8
