import Chip8.Proofs.Halting

/-!
# Logging is transparent

Nothing that the console does depends on whether it writes about it.

* Two sessions with the same machine that perform the same actions tell the same, whatever their
  loggers are and wherever tracing is switched (`Session.seen_eq`).
* Two windows for the same program, one that was opened with tracing on and one with it off, react
  alike to the same events, wherever tracing is switched between them (`Window.seen_eq`).
* With tracing off throughout nothing is written.

What is seen of a reaction is all but the log (`Reaction.silenced`).  The silenced reactions of a
window are computed from the silenced window and the events without those that switch tracing, so
the two windows, which are silenced alike, cannot differ.

The main result is `logging_is_transparent`.
-/

namespace Chip8

/-! ## Sessions -/

/-- The action that a command asks of the machine; the other commands switch tracing. -/
def Command.action? : Command → Option Action
  | act action => some action
  | setLogs _ | toggleLogs => none

/-- The results of actions one after the other, each with the machine that it leaves behind. -/
def Machine.told (m : Machine) : List Action → List (Except ActionError Answer × Machine)
  | [] => []
  | action :: actions =>
    let after := m.perform action
    (after.result, after.machine) :: after.machine.told actions

namespace Session

/-- The results of the actions among some commands, each with the machine that it leaves behind. -/
def seen (s : Session) : List Command → List (Except ActionError Answer × Machine)
  | [] => []
  | command :: commands =>
    let response := s.perform command
    match command.action? with
    | some _ => (response.result, response.session.machine) :: response.session.seen commands
    | none => response.session.seen commands

/-- What is written during some commands. -/
def entries (s : Session) : List Command → List LogEntry
  | [] => []
  | command :: commands =>
    (s.perform command).entries ++ (s.perform command).session.entries commands

/-- The session after some commands. -/
def after (s : Session) (commands : List Command) : Session :=
  commands.foldl (fun s command => (s.perform command).session) s

variable {s : Session} {commands : List Command}

/-- A session tells what its machine tells, whatever is switched in between. -/
theorem seen_eq (s : Session) (commands : List Command) :
    s.seen commands = s.machine.told (commands.filterMap Command.action?) := by
  induction commands generalizing s with
  | nil => rfl
  | cons command commands ih =>
    cases command with
    | act action =>
      rw [seen]
      simp only [Command.action?, List.filterMap_cons, perform_act, ih, Machine.told]
    | setLogs on => exact ih _
    | toggleLogs => exact ih _

/-- With tracing off before and after it, a command writes nothing. -/
theorem entries_of_off {command : Command} (h : s.logger.on = false)
    (hafter : (s.perform command).session.logger.on = false) : (s.perform command).entries = [] := by
  cases command with
  | act action =>
    rw [perform_act]
    exact Logger.logAll_of_off h fun _ => s.machine.trace action
  | setLogs on => rfl
  | toggleLogs =>
    have hon : (s.perform .toggleLogs).session.logger.on = !s.logger.on := rfl
    rw [hon, h] at hafter
    cases hafter

/-- With tracing off throughout, nothing is written. -/
theorem entries_eq_nil (h : ∀ before, before <+: commands → (s.after before).logger.on = false) :
    s.entries commands = [] := by
  induction commands generalizing s with
  | nil => rfl
  | cons command commands ih =>
    have hnow : s.logger.on = false := h [] (List.nil_prefix)
    have hnext : (s.perform command).session.logger.on = false :=
      h [command] (by simp)
    rw [entries, entries_of_off hnow hnext, List.nil_append]
    apply ih
    intro before hbefore
    exact h (command :: before) (List.cons_prefix_cons.mpr ⟨rfl, hbefore⟩)

end Session

/-! ## Windows -/

/-- The notices that do not stand in the log. -/
def Notice.unlogged (notices : List Notice) : List Notice :=
  notices.filter fun n => !n.isLogged

theorem Notice.unlogged_append (first rest : List Notice) :
    unlogged (first ++ rest) = unlogged first ++ unlogged rest :=
  List.filter_append ..

theorem Notice.unlogged_logged (entries : List LogEntry) :
    unlogged (Window.logged entries) = [] := by
  induction entries with
  | nil => rfl
  | cons entry entries ih => exact ih

namespace Window

open Notice

/-- The window with the logger that an application starts with. -/
def silenced (w : Window) : Window :=
  { w with session := { w.session with logger := .initial false } }

end Window

/-- A reaction without what it writes to the log. -/
def Reaction.silenced (r : Reaction) : Reaction :=
  { r with window := r.window.silenced, notices := Notice.unlogged r.notices }

namespace Window

open Notice

/-- The event of a keyboard that switches tracing. -/
def traceEvent (keyboard : Keyboard) : WindowEvent :=
  .keyPress keyboard.trace

/-- The events of a keyboard that do not switch tracing. -/
def common (keyboard : Keyboard) (events : List WindowEvent) : List WindowEvent :=
  events.filter (· ≠ traceEvent keyboard)

/-- The reactions to the events of a keyboard that do not switch tracing, without what they write to
the log. -/
def seen (keyboard : Keyboard) (w : Window) : List WindowEvent → List Reaction
  | [] => []
  | e :: events =>
    if e = traceEvent keyboard then (w.handle e).window.seen keyboard events
    else (w.handle e).silenced :: (w.handle e).window.seen keyboard events

/-- The reactions of a window that is silenced after each event. -/
def playSilenced (w : Window) : List WindowEvent → List Reaction
  | [] => []
  | e :: events =>
    let reaction := (w.handle e).silenced
    reaction :: reaction.window.playSilenced events

variable {keyboard : Keyboard} {w : Window} {e : WindowEvent} {events : List WindowEvent}

theorem silenced_cpuTick (h : w.StandardMemory) :
    w.cpuTick.silenced = w.silenced.cpuTick.silenced := by
  cases hresult : w.session.machine.step.result with
  | ok ins =>
    rw [cpuTick_of_ok hresult, cpuTick_of_ok (w := w.silenced) hresult]
    simp only [Reaction.silenced, stepTrace, unlogged_logged]
    rfl
  | error fault =>
    obtain ⟨d, dump, hd, -, htick⟩ := cpuTick_of_error h hresult
    obtain ⟨d', dump', hd', -, htick'⟩ := cpuTick_of_error (w := w.silenced) h hresult
    rw [hd] at hd'
    cases hd'
    have hreport : ∀ entries, unlogged (.emulationError d :: logged entries) = [.emulationError d] :=
      fun entries => congrArg (Notice.emulationError d :: ·) (unlogged_logged entries)
    rw [htick, htick']
    simp only [Reaction.silenced, unlogged_append, stepTrace, unlogged_logged, hreport]
    rfl

/-- Tracing can be switched without anything else changing. -/
theorem silenced_traceEvent (w : Window) :
    (w.handle (traceEvent w.keyboard)).window.silenced = w.silenced := by
  rw [traceEvent, handle, keyPress, if_neg w.keyboard.trace_ne_escape, if_pos rfl]
  rfl

/-- An event that does not switch tracing does the same whether or not tracing is on. -/
theorem silenced_handle (h : w.StandardMemory) (he : e ≠ traceEvent w.keyboard) :
    (w.handle e).silenced = (w.silenced.handle e).silenced := by
  cases e with
  | cpuTick =>
    simp only [handle]
    have hscheduled : w.silenced.isScheduled .cpu = w.isScheduled .cpu := rfl
    rw [hscheduled]
    split
    · exact silenced_cpuTick h
    · rfl
  | timerTick =>
    simp only [handle]
    have hscheduled : w.silenced.isScheduled .timer = w.isScheduled .timer := rfl
    rw [hscheduled]
    split <;> rfl
  | keyPress symbol =>
    have htrace : symbol ≠ w.keyboard.trace := by
      rintro rfl
      exact he rfl
    have hkeyboard : w.silenced.keyboard = w.keyboard := rfl
    simp only [handle, keyPress, hkeyboard, if_neg htrace]
    split
    · rfl
    · cases w.keyboard.keymap.find? symbol with
      | none => rfl
      | some key =>
        simp only [Reaction.silenced, unlogged_logged]
        rfl
  | keyRelease symbol =>
    have hkeyboard : w.silenced.keyboard = w.keyboard := rfl
    simp only [handle, keyRelease, hkeyboard]
    cases w.keyboard.keymap.find? symbol <;> rfl
  | draw =>
    have hscreen : w.silenced.session.machine.screen = w.session.machine.screen := rfl
    simp only [handle, draw, hscreen]
    split <;> rfl
  | close | deactivate => rfl

/-- What is seen of a window is what a window does that is silenced all the time, and that nobody
asks to switch tracing. -/
theorem seen_eq (hkeys : w.keyboard = keyboard) (h : w.StandardMemory)
    (events : List WindowEvent) :
    w.seen keyboard events = w.silenced.playSilenced (common keyboard events) := by
  induction events generalizing w with
  | nil => rfl
  | cons e events ih =>
    have hnext := ih ((w.keyboard_handle e).trans hkeys) (h.handle e)
    rw [seen]
    by_cases he : e = traceEvent keyboard
    · have hcommon : common keyboard (e :: events) = common keyboard events :=
        List.filter_cons_of_neg (by simp [he])
      rw [if_pos he, hcommon, hnext, he, ← hkeys, silenced_traceEvent]
    · have hcommon : common keyboard (e :: events) = e :: common keyboard events :=
        List.filter_cons_of_pos (by simp [he])
      rw [if_neg he, hcommon, playSilenced, hnext, ← silenced_handle h (hkeys ▸ he)]
      rfl

theorem stepTrace_of_off (hoff : w.session.logger.on = false) : w.stepTrace = [] := by
  rw [stepTrace, Logger.logAll_of_off hoff]
  rfl

/-- With tracing off before and after it, an event writes nothing to the log. -/
theorem unlogged_of_off (h : w.StandardMemory) (hoff : w.session.logger.on = false)
    (hafter : (w.handle e).window.session.logger.on = false) :
    unlogged (w.handle e).notices = (w.handle e).notices := by
  cases e with
  | cpuTick =>
    rw [handle]
    split
    · cases hresult : w.session.machine.step.result with
      | ok ins =>
        rw [cpuTick_of_ok hresult, stepTrace_of_off hoff]
        rfl
      | error fault =>
        obtain ⟨d, dump, -, -, htick⟩ := cpuTick_of_error h hresult
        rw [htick, stepTrace_of_off hoff, Logger.logAll_of_off hoff]
        rfl
    · rfl
  | timerTick =>
    rw [handle]
    split <;> rfl
  | keyPress symbol =>
    rw [handle, keyPress] at hafter ⊢
    split
    · rfl
    next hescape =>
      rw [if_neg hescape] at hafter
      split
      next htrace =>
        have hon : (w.session.logger.toggle).1.on = !w.session.logger.on := rfl
        rw [if_pos htrace, hon, hoff] at hafter
        cases hafter
      · cases w.keyboard.keymap.find? symbol with
        | none => rfl
        | some key =>
          simp only [Logger.log, hoff]
          rfl
  | keyRelease symbol =>
    rw [handle, keyRelease]
    split <;> rfl
  | draw =>
    rw [handle, draw]
    split <;> rfl
  | close | deactivate => rfl

/-- With tracing off throughout, nothing is written to the log. -/
theorem unlogged_notices (h : w.StandardMemory)
    (hoff : ∀ before, before <+: events → (w.after before).session.logger.on = false) :
    unlogged (w.notices events) = w.notices events := by
  induction events generalizing w with
  | nil => rfl
  | cons e events ih =>
    have hnow : w.session.logger.on = false := hoff [] List.nil_prefix
    have hnext : (w.handle e).window.session.logger.on = false := hoff [e] (by simp)
    have hrest := ih (h.handle e) fun before hbefore =>
      hoff (e :: before) (List.cons_prefix_cons.mpr ⟨rfl, hbefore⟩)
    show unlogged ((w.handle e).notices ++ (w.handle e).window.notices events) = _
    rw [unlogged_append, unlogged_of_off h hnow hnext, hrest]
    rfl

variable {settings : Settings} {contents : Except ReadError (List UInt8)}

/-- The window opens with tracing on if and only if it opens with tracing off, and then the two
differ in their loggers alone. -/
theorem exists_opened_verbose (h : (Launch.run keyboard settings contents).result = .opened w)
    (verbose : Bool) :
    ∃ w', (Launch.run keyboard { settings with verbose := verbose } contents).result = .opened w' ∧
      w'.silenced = w.silenced := by
  obtain ⟨memory, hload, hstart⟩ := Launch.result_eq_opened_iff.mp h
  obtain ⟨cpu, timer, hcpu, htimer, rfl⟩ := start_eq_ok_iff.mp hstart
  refine ⟨_, Launch.result_eq_opened_iff.mpr ⟨memory, hload, start_eq_ok_iff.mpr
    ⟨cpu, timer, hcpu, htimer, rfl⟩⟩, rfl⟩

/-- A launch with tracing off writes nothing to the log. -/
theorem unlogged_launch (hoff : (Launch.logger settings).on = false) :
    unlogged (Launch.run keyboard settings contents).notices =
      (Launch.run keyboard settings contents).notices := by
  rw [Launch.notices_run, Rom.entries_of_off hoff, Launch.refusal]
  cases Rom.load settings.rom contents with
  | ok memory => rfl
  | error e => cases hd : e.diagnostic? <;> simp [hd, unlogged, isLogged, logged]

/-- A window opens with the logger of its settings, on the keyboard of its host. -/
theorem logger_of_opened (h : (Launch.run keyboard settings contents).result = .opened w) :
    w.session.logger = Launch.logger settings ∧ w.keyboard = keyboard := by
  obtain ⟨memory, -, hstart⟩ := Launch.result_eq_opened_iff.mp h
  obtain ⟨hsession, -, hkeys⟩ := of_start hstart
  exact ⟨congrArg Session.logger hsession, hkeys⟩

end Window

/-- **Logging is transparent.**  Sessions that start with the same machine and perform the same
actions tell the same, whatever their loggers are and wherever tracing is switched, and so do two
windows for the same program that are opened with tracing on or off.  With tracing off throughout
nothing is written to the log. -/
theorem logging_is_transparent :
    (∀ (s s' : Session) (commands commands' : List Command), s.machine = s'.machine →
      commands.filterMap Command.action? = commands'.filterMap Command.action? →
        s.seen commands = s'.seen commands') ∧
    (∀ (s : Session) (commands : List Command),
      (∀ before, before <+: commands → (s.after before).logger.on = false) →
        s.entries commands = []) ∧
    (∀ (keyboard : Keyboard) (settings : Settings) (contents : Except ReadError (List UInt8))
        (w : Window),
      (Launch.run keyboard settings contents).result = .opened w →
        (∀ verbose, ∃ w',
          (Launch.run keyboard { settings with verbose := verbose } contents).result =
              .opened w' ∧
            ∀ events events', Window.common keyboard events = Window.common keyboard events' →
              w.seen keyboard events = w'.seen keyboard events') ∧
        (∀ events,
          (∀ before, before <+: events → (w.after before).session.logger.on = false) →
            Notice.unlogged
                ((Launch.run keyboard settings contents).notices ++ w.notices events) =
              (Launch.run keyboard settings contents).notices ++ w.notices events)) := by
  refine ⟨?_, ?_, ?_⟩
  · intro s s' commands commands' hmachine hactions
    rw [Session.seen_eq, Session.seen_eq, hmachine, hactions]
  · intro s commands hoff
    exact Session.entries_eq_nil hoff
  · intro keyboard settings contents w hopened
    obtain ⟨hstandard, -, -⟩ := Window.state_of_opened hopened
    obtain ⟨hlogger, hkeys⟩ := Window.logger_of_opened hopened
    constructor
    · intro verbose
      obtain ⟨w', hopened', hsilenced⟩ := Window.exists_opened_verbose hopened verbose
      obtain ⟨hstandard', -, -⟩ := Window.state_of_opened hopened'
      obtain ⟨-, hkeys'⟩ := Window.logger_of_opened hopened'
      refine ⟨w', hopened', ?_⟩
      intro events events' hcommon
      rw [Window.seen_eq hkeys hstandard, Window.seen_eq hkeys' hstandard', hsilenced, hcommon]
    · intro events hoff
      have hquiet : (Launch.logger settings).on = false := by
        rw [← hlogger]
        exact hoff [] List.nil_prefix
      rw [Notice.unlogged_append, Window.unlogged_launch hquiet,
        Window.unlogged_notices hstandard hoff]

/-- A program that returns at once fails alike in two windows, of which one is opened with tracing on
and the other has it switched on in between; so does a step in two sessions. -/
theorem returning_is_transparent :
    (∃ w w', (Launch.run .standard Window.returning (.ok Window.returningRom)).result =
        .opened w ∧
      (Launch.run .standard { Window.returning with verbose := false }
        (.ok Window.returningRom)).result = .opened w' ∧
      w.seen .standard [.timerTick, .cpuTick] =
        w'.seen .standard [.timerTick, Window.traceEvent .standard, .cpuTick]) ∧
    (Session.mk Machine.returnFirst (Logger.initial true)).seen [.act .step] =
      (Session.mk Machine.returnFirst (Logger.initial false)).seen [.toggleLogs, .act .step] := by
  obtain ⟨hsessions, -, hwindows⟩ := logging_is_transparent
  obtain ⟨w, hopened, -, -⟩ := Window.exists_returning
  obtain ⟨w', hopened', halike⟩ := (hwindows _ _ _ w hopened).1 false
  exact ⟨⟨w, w', hopened, hopened', halike _ _ rfl⟩, hsessions _ _ _ _ rfl rfl⟩

end Chip8
