import Chip8.Memory.Dump
import Chip8.Window.Basic

/-!
# Events

How the window reacts to what happens to it.  A failing instruction halts the program for good: the
failure is reported, nothing stays scheduled, and the last picture stays on the screen.
-/

namespace Chip8

inductive WindowEvent where
  | cpuTick
  | timerTick
  | keyPress (symbol : Int)
  | keyRelease (symbol : Int)
  | draw
  | close
  /-- The window has lost the keyboard. -/
  | deactivate
deriving DecidableEq, Repr

/-- What the window has its host do. -/
inductive Effect where
  | setImage (image : Image)
  | clear
  | blit (x y : Int)
  | setCaption (text : String)
  | close
  /-- The host does what it always does when a window closes. -/
  | closed
deriving DecidableEq, Repr

/-- What an event leaves behind.  A failure that is not one of the console's own is not handled by
the window. -/
structure Reaction where
  window : Window
  effects : List Effect := []
  notices : List Notice := []
  unhandled : Option ActionError := none

namespace Window

open Numeral

/-! ## Halting -/

/-- The number of bytes that a halt shows. -/
def haltLength : Nat := 32

/-- Where the bytes around the failed instruction begin: at a multiple of sixteen, or earlier so
that they end with the memory. -/
def haltStart (m : Machine) : Int :=
  max 0 (min (m.currentPc - m.currentPc % 16) (m.memory.size - haltLength))

/-- The bytes around the failed instruction. -/
def haltDump (m : Machine) : Except MemoryError String :=
  m.memory.dump (haltStart m) (some haltLength) Memory.dumpWidth

/-- Log entries as notices. -/
def logged (entries : List LogEntry) : List Notice :=
  entries.map .logged

/-- The end of a halt: nothing is scheduled any more, and the title tells it. -/
def halted (w : Window) (notices : List Notice) : Reaction where
  window := w.unscheduleAll
  effects := [.setCaption haltedCaption]
  notices := notices

/-- Halts the program on a failure.  With tracing on, the registers and the bytes around the failed
instruction are shown. -/
def halt (w : Window) (d : Diagnostic) : Reaction :=
  let w := { w with failed := true }
  let logger := w.session.logger
  let m := w.session.machine
  if logger.on then
    let registers := logged (logger.log m.registers)
    match haltDump m with
    | .ok dump => w.halted (.emulationError d :: registers ++ logged (logger.log dump))
    | .error e =>
      { window := w, notices := .emulationError d :: registers, unhandled := some (.memory e) }
  else w.halted [.emulationError d]

/-! ## Reactions -/

/-- Executes an instruction. -/
def cpuTick (w : Window) : Reaction :=
  let response := w.session.perform (.act .step)
  let w := { w with session := response.session }
  let traced := logged response.entries
  match response.result with
  | .ok _ => { window := w, notices := traced }
  | .error e =>
    match e.diagnostic? with
    | some d =>
      let reaction := w.halt d
      { reaction with notices := traced ++ reaction.notices }
    | none => { window := w, notices := traced, unhandled := some e }

/-- Counts the delay timer down. -/
def timerTick (w : Window) : Reaction where
  window := w.withMachine w.session.machine.tick

/-- Presses the key of a symbol, if there is one; the escape key closes the window, and the first
function key switches tracing. -/
def keyPress (w : Window) (symbol : Int) : Reaction :=
  if symbol = w.keyboard.escape then { window := w, effects := [.close] }
  else if symbol = w.keyboard.trace then
    let (logger, entries) := w.session.logger.toggle
    { window := { w with session := { w.session with logger := logger } }
      notices := logged entries }
  else
    match w.keyboard.keymap.find? symbol with
    | none => { window := w }
    | some key =>
      let m := w.session.machine
      { window := w.withMachine { m with keypad := m.keypad.put key true }
        notices := logged (w.session.logger.log ("Key down: " ++ markedHex 1 key.val)) }

/-- Releases the key of a symbol, if there is one. -/
def keyRelease (w : Window) (symbol : Int) : Reaction :=
  match w.keyboard.keymap.find? symbol with
  | none => { window := w }
  | some key =>
    let m := w.session.machine
    { window := w.withMachine { m with keypad := m.keypad.put key false } }

/-- Shows the screen.  The picture is made anew only if the screen may have changed. -/
def draw (w : Window) : Reaction :=
  let m := w.session.machine
  if m.screen.dirty then
    let image := m.screen.imageAt w.scale
    { window := { w with image := image }.withMachine { m with screen := m.screen.markShown }
      effects := [.setImage image, .clear, .blit 0 0] }
  else { window := w, effects := [.clear, .blit 0 0] }

/-- Reacts to an event.  A tick of a task that is no longer scheduled does nothing. -/
def handle (w : Window) : WindowEvent → Reaction
  | .cpuTick => if w.isScheduled .cpu then w.cpuTick else { window := w }
  | .timerTick => if w.isScheduled .timer then w.timerTick else { window := w }
  | .keyPress symbol => w.keyPress symbol
  | .keyRelease symbol => w.keyRelease symbol
  | .draw => w.draw
  | .close => { window := w.unscheduleAll, effects := [.closed] }
  | .deactivate =>
    { window := w.withMachine { w.session.machine with keypad := .allUp } }

/-- The reactions to one event after the other. -/
def play (w : Window) : List WindowEvent → List Reaction
  | [] => []
  | e :: es =>
    let reaction := w.handle e
    reaction :: reaction.window.play es

/-- The window after some events. -/
def after (w : Window) (events : List WindowEvent) : Window :=
  events.foldl (fun w e => (w.handle e).window) w

end Window

end Chip8
