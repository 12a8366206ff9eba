import Chip8.Proofs.Display
import Chip8.Proofs.HostKeymap

/-!
# What events do

The window acts on its machine by a few of the actions that a machine has: an event stands for at
most one of them (`WindowEvent.action?`), and besides only the drawing of the window touches the
machine, by taking the mark off the screen (`Window.machine_handle`).  Which key of the keypad an
event of a key is about is a matter of the keyboard; if all its symbols are distinct, it is the key of
the layout that has the symbol (`Keyboard.pressed?_eq_some_iff`).

The one event that can fail is a tick.  In a memory of the standard size each fault is one of the
console's own, and the bytes around the failed instruction can be shown, so a tick that fails halts
the program and lets nothing through to the host (`Window.cpuTick_of_error`).
-/

namespace Chip8

/-! ## Keys of the host -/

namespace Keyboard

variable {keyboard : Keyboard} {symbol : Int} {k l : Fin 16}

/-- The symbol of the host's key for a key of the keypad. -/
def keySymbol? (keyboard : Keyboard) (k : Fin 16) : Option Int :=
  keyboard.symbol? (Keymap.keyName k)

/-- The key of the keypad that the press of a symbol puts down.  The window keeps two symbols for
itself. -/
def pressed? (keyboard : Keyboard) (symbol : Int) : Option (Fin 16) :=
  if symbol = keyboard.escape ∨ symbol = keyboard.trace then none
  else keyboard.keymap.find? symbol

/-- The key of the keypad that the release of a symbol puts up. -/
def released? (keyboard : Keyboard) (symbol : Int) : Option (Fin 16) :=
  keyboard.keymap.find? symbol

/-- A keyboard on which the keys of the layout have symbols of their own, different from each other
and from those that the window keeps for itself. -/
structure Distinct (keyboard : Keyboard) : Prop where
  keys : ∀ k l, keyboard.keySymbol? k = keyboard.keySymbol? l → k = l
  escape : ∀ k, keyboard.keySymbol? k ≠ some keyboard.escape
  trace : ∀ k, keyboard.keySymbol? k ≠ some keyboard.trace

theorem distinct_standard : standard.Distinct where
  keys := by decide +kernel
  escape := by decide +kernel
  trace := by decide +kernel

/-- The keymap of a keyboard is that of the layout. -/
theorem ofHost_eq (keyboard : Keyboard) :
    Keymap.ofHost keyboard.symbol? = .ok keyboard.keymap := by
  have hlisted : ∀ k, keyboard.symbol? (Keymap.keyName k) ≠ none := by
    intro k
    exact keyboard.layout_listed _ (Vector.mem_toList_iff.mpr (Vector.getElem_mem k.isLt))
  obtain ⟨map, hmap⟩ := Keymap.exists_ofHost hlisted
  rw [keymap, hmap]

/-- On a keyboard with distinct symbols, a symbol stands for the key of the layout that has it. -/
theorem released?_eq_some_iff (h : keyboard.Distinct) :
    keyboard.released? symbol = some k ↔ keyboard.keySymbol? k = some symbol := by
  rw [released?, Keymap.find?_ofHost keyboard.ofHost_eq]
  constructor
  · rintro ⟨hk, -⟩
    exact hk
  · intro hk
    exact ⟨hk, fun l hl => (h.keys l k (hl.trans hk.symm)).le⟩

theorem pressed?_eq_some_iff (h : keyboard.Distinct) :
    keyboard.pressed? symbol = some k ↔ keyboard.keySymbol? k = some symbol := by
  rw [← released?_eq_some_iff h, pressed?]
  split
  next hkept =>
    -- No key of the layout has a symbol that the window keeps for itself.
    have hnone : keyboard.released? symbol ≠ some k := by
      intro hfound
      rw [released?_eq_some_iff h] at hfound
      rcases hkept with rfl | rfl
      · exact h.escape k hfound
      · exact h.trace k hfound
    simp [hnone]
  next => rfl

end Keyboard

/-! ## Events as actions -/

/-- The action of the machine that an event stands for, given the keyboard and which tasks are
scheduled.  Ticks of other tasks, the drawing and the closing of the window and keys that are not in
the layout stand for none. -/
def WindowEvent.action? (keyboard : Keyboard) (scheduled : WindowTask → Bool) :
    WindowEvent → Option Action
  | cpuTick => if scheduled .cpu then some .step else none
  | timerTick => if scheduled .timer then some .tick else none
  | keyPress symbol => (keyboard.pressed? symbol).map fun k => .press k.val
  | keyRelease symbol => (keyboard.released? symbol).map fun k => .release k.val
  | deactivate => some .resetKeys
  | draw | close => none

namespace Machine

/-- The machine with its screen marked as shown. -/
def shown (m : Machine) : Machine :=
  { m with screen := m.screen.markShown }

/-- The machine after an action, if there is one. -/
def performed (m : Machine) : Option Action → Machine
  | none => m
  | some action => (m.perform action).machine

/-- No event changes the size of the memory. -/
theorem size_performed (m : Machine) (action? : Option Action) :
    (m.performed action?).memory.size = m.memory.size := by
  cases action? with
  | none => rfl
  | some action => exact m.size_perform action

end Machine

namespace Window

/-! ## Halts -/

/-- The bytes that a halt shows lie inside every memory that holds that many. -/
theorem inBounds_haltStart {m : Machine} (h : haltLength ≤ m.memory.size) :
    m.memory.InBounds (haltStart m) haltLength := by
  unfold Memory.InBounds haltStart
  omega

theorem exists_haltDump {m : Machine} (h : haltLength ≤ m.memory.size) :
    ∃ dump, haltDump m = .ok dump :=
  ⟨_, Memory.dump_of_inBounds (inBounds_haltStart h) (by decide)⟩

theorem haltLength_le : haltLength ≤ Memory.standardSize := by
  decide

/-- A halt whose dump can be made unschedules the tasks; with tracing on it shows the registers and
the dump. -/
theorem halt_eq {w : Window} {dump : String} (hdump : haltDump w.session.machine = .ok dump)
    (d : Diagnostic) :
    w.halt d =
      { window := { w with failed := true }.unscheduleAll
        effects := [.setCaption haltedCaption]
        notices := .emulationError d ::
          logged (w.session.logger.logAll fun _ => [w.session.machine.registers, dump]) } := by
  unfold halt Logger.logAll
  by_cases hon : w.session.logger.on = true
  · simp only [hon, if_true, hdump, Logger.log, List.flatMap_cons, List.flatMap_nil,
      List.append_nil, logged, List.map_append]
    rfl
  · simp only [hon]
    rfl

/-! ## Ticks -/

/-- The window whose machine has a memory of the standard size. -/
def StandardMemory (w : Window) : Prop :=
  w.session.machine.memory.size = Memory.standardSize

variable {w : Window} {ins : Instruction} {fault : Fault}

/-- What is written about the next step. -/
def stepTrace (w : Window) : List Notice :=
  logged (w.session.logger.logAll fun _ => w.session.machine.traceStep)

/-- A tick whose step completes leaves everything but the machine as it was. -/
theorem cpuTick_of_ok (h : w.session.machine.step.result = .ok ins) :
    w.cpuTick =
      { window := w.withMachine w.session.machine.step.machine, notices := w.stepTrace } := by
  unfold cpuTick
  simp only [Session.perform_act, Machine.perform, h]
  rfl

/-- A tick that meets one of the console's own failures halts the program, if the dump around the
instruction can be made. -/
theorem cpuTick_of_diagnostic {d : Diagnostic} {dump : String}
    (h : w.session.machine.step.result = .error fault) (hd : fault.diagnostic? = some d)
    (hdump : haltDump w.session.machine.step.machine = .ok dump) :
    w.cpuTick =
      { window := { w.withMachine w.session.machine.step.machine with
          scheduled := [], failed := true }
        effects := [.setCaption haltedCaption]
        notices := w.stepTrace ++ .emulationError d :: logged (w.session.logger.logAll fun _ =>
          [w.session.machine.step.machine.registers, dump]) } := by
  have hdiagnostic : (ActionError.fault fault).diagnostic? = some d := hd
  have hhalt := halt_eq (w := w.withMachine w.session.machine.step.machine) hdump d
  have hperform : w.session.perform (.act .step) =
      ⟨(w.withMachine w.session.machine.step.machine).session, .error (.fault fault),
        w.session.logger.logAll fun _ => w.session.machine.traceStep⟩ := by
    rw [Session.perform_act]
    simp only [Machine.perform, h]
    rfl
  unfold cpuTick
  simp only [hperform, hdiagnostic]
  show { (w.withMachine w.session.machine.step.machine).halt d with
    notices := w.stepTrace ++ ((w.withMachine w.session.machine.step.machine).halt d).notices } = _
  rw [hhalt]
  rfl

/-- A tick whose step fails halts the program, reports the fault and lets nothing through. -/
theorem cpuTick_of_error (hsize : w.StandardMemory)
    (h : w.session.machine.step.result = .error fault) :
    ∃ d dump, fault.diagnostic? = some d ∧
      haltDump w.session.machine.step.machine = .ok dump ∧
      w.cpuTick =
        { window := { w.withMachine w.session.machine.step.machine with
            scheduled := [], failed := true }
          effects := [.setCaption haltedCaption]
          notices := w.stepTrace ++ .emulationError d :: logged (w.session.logger.logAll fun _ =>
            [w.session.machine.step.machine.registers, dump]) } := by
  have hsmall : w.session.machine.memory.size ≤ 65535 := by
    rw [hsize]
    decide
  have hlarge : haltLength ≤ w.session.machine.step.machine.memory.size := by
    rw [Machine.size_step, hsize]
    exact haltLength_le
  obtain ⟨d, hd⟩ := Machine.exists_diagnostic hsmall (Machine.fails_of_step h)
  obtain ⟨dump, hdump⟩ := exists_haltDump hlarge
  exact ⟨d, dump, hd, hdump, cpuTick_of_diagnostic h hd hdump⟩

/-! ## The machine of the window -/

/-- An event has the machine perform its action.  Besides, a drawing takes the mark off the
screen. -/
theorem machine_handle (w : Window) (e : WindowEvent) :
    (w.handle e).window.session.machine.shown =
      (w.session.machine.performed (e.action? w.keyboard w.isScheduled)).shown := by
  cases e with
  | cpuTick =>
    simp only [handle, WindowEvent.action?]
    by_cases hscheduled : w.isScheduled .cpu = true
    · simp only [hscheduled, if_true]
      rw [w.cpuTick_display.2.1]
      rfl
    · simp only [hscheduled]
      rfl
  | timerTick =>
    simp only [handle, WindowEvent.action?]
    by_cases hscheduled : w.isScheduled .timer = true
    · simp only [hscheduled, if_true]
      rfl
    · simp only [hscheduled]
      rfl
  | keyPress symbol =>
    simp only [handle, keyPress, WindowEvent.action?, Keyboard.pressed?]
    by_cases hescape : symbol = w.keyboard.escape
    · rw [if_pos hescape, if_pos (.inl hescape)]
      rfl
    · rw [if_neg hescape]
      by_cases htrace : symbol = w.keyboard.trace
      · rw [if_pos htrace, if_pos (.inr htrace)]
        rfl
      · rw [if_neg htrace, if_neg (not_or.mpr ⟨hescape, htrace⟩)]
        cases w.keyboard.keymap.find? symbol with
        | none => rfl
        | some k =>
          simp only [Option.map_some, Machine.performed, Machine.perform, Keypad.press_val]
          rfl
  | keyRelease symbol =>
    simp only [handle, keyRelease, WindowEvent.action?, Keyboard.released?]
    cases w.keyboard.keymap.find? symbol with
    | none => rfl
    | some k =>
      simp only [Option.map_some, Machine.performed, Machine.perform, Keypad.release_val]
      rfl
  | draw =>
    simp only [handle, draw]
    split <;> rfl
  | close => rfl
  | deactivate => rfl

theorem keyboard_halt (w : Window) (d : Diagnostic) : (w.halt d).window.keyboard = w.keyboard := by
  unfold halt
  simp only
  split
  · split <;> rfl
  · rfl

/-- No event changes the keyboard. -/
theorem keyboard_handle (w : Window) (e : WindowEvent) :
    (w.handle e).window.keyboard = w.keyboard := by
  cases e with
  | cpuTick =>
    simp only [handle, cpuTick]
    split
    · split
      · rfl
      · split
        · exact keyboard_halt _ _
        · rfl
    · rfl
  | keyPress symbol =>
    simp only [handle, keyPress]
    split
    · rfl
    · split
      · rfl
      · split <;> rfl
  | timerTick | keyRelease symbol | draw =>
    simp only [handle, keyRelease, draw]
    split <;> rfl
  | close | deactivate => rfl

theorem StandardMemory.handle (h : w.StandardMemory) (e : WindowEvent) :
    (w.handle e).window.StandardMemory := by
  have hmemory := congrArg (fun m => m.memory.size) (w.machine_handle e)
  exact (hmemory.trans (w.session.machine.size_performed _)).trans h

theorem StandardMemory.after (h : w.StandardMemory) (events : List WindowEvent) :
    (w.after events).StandardMemory := by
  induction events generalizing w with
  | nil => exact h
  | cons e es ih => exact ih (h.handle e)

/-- A window opens with both tasks scheduled and without a failure, on a memory of the standard
size. -/
theorem state_of_opened {keyboard : Keyboard} {settings : Settings}
    {contents : Except ReadError (List UInt8)}
    (h : (Launch.run keyboard settings contents).result = .opened w) :
    w.StandardMemory ∧ (∀ task, w.isScheduled task = true) ∧ w.failed = false := by
  obtain ⟨memory, hload, hstart⟩ := Launch.result_eq_opened_iff.mp h
  obtain ⟨cpu, timer, -, -, rfl⟩ := start_eq_ok_iff.mp hstart
  obtain ⟨rom, -, hroom, rfl⟩ := Rom.load_eq_ok_iff.mp hload
  refine ⟨Memory.size_image hroom, ?_, rfl⟩
  intro task
  cases task <;> rfl

end Window

end Chip8
