import Chip8.Notice
import Chip8.Screen.Image
import Chip8.Session
import Chip8.Settings
import Chip8.Window.Keyboard

/-!
# The window

The window shows a session at a scale, and takes keys from the keyboard of its host.  Two tasks are
scheduled while it runs: one executes instructions, the other counts the delay timer down, each at
its own rate.
-/

namespace Chip8

/-- The tasks of a running window. -/
inductive WindowTask where
  | cpu
  | timer
deriving DecidableEq, Repr

structure Window where
  keyboard : Keyboard
  session : Session
  scale : Nat
  /-- The picture that is shown, as it was last set. -/
  image : Image
  /-- The scheduled tasks with the seconds between two turns. -/
  scheduled : List (WindowTask × Float)
  /-- Whether the program has failed. -/
  failed : Bool

/-- A rate that is beyond the range of floating point numbers. -/
structure RateTooLarge where
  rate : Nat
deriving DecidableEq, Repr

def RateTooLarge.message (_ : RateTooLarge) : String :=
  "int too large to convert to float"

namespace Window

/-- The least number that is not rounded to a floating point number: half a unit above the
largest. -/
def rateLimit : Nat := Nat.pow 2 1024 - Nat.pow 2 970

/-- The seconds between two turns of a task, for a number of turns in a second. -/
def interval (rate : Nat) : Except RateTooLarge Float :=
  if rate < rateLimit then .ok (1.0 / Float.ofNat rate) else .error ⟨rate⟩

/-- What the title of the window says. -/
def openCaption : String := "CHIP-8 Emulator - ESC to exit"

def haltedCaption : String := "CHIP-8 Emulator - halted"

/-- Opens the window for a session. -/
def start (keyboard : Keyboard) (session : Session) (settings : Settings) :
    Except RateTooLarge Window := do
  let cpu ← interval settings.cpuHz
  let timer ← interval settings.timerHz
  return {
    keyboard := keyboard
    session := session
    scale := settings.scale
    image := session.machine.screen.imageAt settings.scale
    scheduled := [(.cpu, cpu), (.timer, timer)]
    failed := false }

theorem interval_eq_error_iff {rate : Nat} {e : RateTooLarge} :
    interval rate = .error e ↔ rateLimit ≤ rate ∧ e = ⟨rate⟩ := by
  unfold interval
  split
  next h => simp [Nat.not_le.mpr h]
  next h => simp [Nat.le_of_not_lt h, eq_comm]

theorem not_le_of_interval {rate : Nat} {seconds : Float} (h : interval rate = .ok seconds) :
    ¬ rateLimit ≤ rate := by
  intro hlarge
  rw [interval_eq_error_iff.mpr ⟨hlarge, rfl⟩] at h
  cases h

/-- A window opens with both tasks scheduled, if there is an interval for each. -/
theorem start_eq_ok_iff {keyboard : Keyboard} {session : Session} {settings : Settings}
    {w : Window} :
    start keyboard session settings = .ok w ↔
      ∃ cpu timer, interval settings.cpuHz = .ok cpu ∧ interval settings.timerHz = .ok timer ∧
        w = { keyboard := keyboard
              session := session
              scale := settings.scale
              image := session.machine.screen.imageAt settings.scale
              scheduled := [(.cpu, cpu), (.timer, timer)]
              failed := false } := by
  unfold start
  cases interval settings.cpuHz with
  | error e => simp [bind, Except.bind]
  | ok cpu =>
    cases interval settings.timerHz with
    | error e => simp [bind, Except.bind]
    | ok timer => simp [bind, Except.bind, pure, Except.pure, eq_comm]

/-- A window does not open if one of the rates is too large, and then only. -/
theorem start_fails_iff {keyboard : Keyboard} {session : Session} {settings : Settings} :
    (∃ e, start keyboard session settings = .error e) ↔
      rateLimit ≤ settings.cpuHz ∨ rateLimit ≤ settings.timerHz := by
  unfold start
  cases hcpu : interval settings.cpuHz with
  | error e => simp [bind, Except.bind, (interval_eq_error_iff.mp hcpu).1]
  | ok cpu =>
    cases htimer : interval settings.timerHz with
    | error e => simp [bind, Except.bind, (interval_eq_error_iff.mp htimer).1]
    | ok timer =>
      simp [bind, Except.bind, pure, Except.pure, not_le_of_interval hcpu,
        not_le_of_interval htimer]

/-- Whether a task is scheduled. -/
def isScheduled (w : Window) (task : WindowTask) : Bool :=
  w.scheduled.any (·.1 == task)

/-- The window with nothing scheduled any more. -/
def unscheduleAll (w : Window) : Window :=
  { w with scheduled := [] }

/-- The window with another machine in its session. -/
def withMachine (w : Window) (m : Machine) : Window :=
  { w with session := { w.session with machine := m } }

/-- What the program returns to the system when the window is closed. -/
def exitCode (w : Window) : Nat :=
  if w.failed then 1 else 0

end Window

end Chip8
