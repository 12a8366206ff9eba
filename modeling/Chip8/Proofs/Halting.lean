import Chip8.Application
import Chip8.Proofs.ErrorStream

/-!
# Halting is final

The tasks of a window run together until the window is closed or a step fails.  From then on nothing
schedules them again, so no event changes the program: keys can still be pressed, and the screen can
still be shown.  A step that fails is the last one, so its fault is reported at once and no other
fault is ever reported: just one line of what a window writes reports a failure, or none does.  The
code of the application tells whether there was one.

What a single event does is said once (`Window.Reacts`), and what a run does follows by induction
from that: what has happened in a run is that some event has met the window in some state
(`Window.Happens`).

The main result is `Window.halting_is_final`.
-/

namespace Chip8

namespace Machine

/-- The fault of the next step, if it fails. -/
def fault? (m : Machine) : Option Fault :=
  match m.step.result with
  | .ok _ => none
  | .error fault => some fault

/-- The machine without the state of its keys and the mark of its screen: all that a program alone
can change. -/
def program (m : Machine) : Machine :=
  { m with keypad := .allUp, screen := m.screen.markShown }

/-- Without a tick, an event leaves the program alone. -/
theorem program_performed {scheduled : WindowTask → Bool} (h : ∀ task, scheduled task = false)
    (keyboard : Keyboard) (m : Machine) (e : WindowEvent) :
    (m.performed (e.action? keyboard scheduled)).program = m.program := by
  cases e with
  | cpuTick | timerTick =>
    simp only [WindowEvent.action?, h]
    rfl
  | keyPress symbol =>
    rw [WindowEvent.action?]
    cases keyboard.pressed? symbol with
    | none => rfl
    | some k =>
      simp only [Option.map_some, performed, perform, Keypad.press_val]
      rfl
  | keyRelease symbol =>
    rw [WindowEvent.action?]
    cases keyboard.released? symbol with
    | none => rfl
    | some k =>
      simp only [Option.map_some, performed, perform, Keypad.release_val]
      rfl
  | draw | close | deactivate => rfl

end Machine

namespace Window

open Notice

/-! ## What one event does -/

/-- The fault that an event meets: that of the step of a tick that is still scheduled. -/
def fault? (w : Window) : WindowEvent → Option Fault
  | .cpuTick => if w.isScheduled .cpu then w.session.machine.fault? else none
  | _ => none

/-- Whether an event stops the tasks: it closes the window, or meets a fault. -/
def Stops (w : Window) (e : WindowEvent) : Prop :=
  e = .close ∨ ∃ fault, w.fault? e = some fault

/-- What an event does to the tasks, to the mark of failure and to the error stream. -/
structure Reacts (w : Window) (e : WindowEvent) : Prop where
  stops : w.Stops e → (w.handle e).window.scheduled = []
  goesOn : ¬ w.Stops e → (w.handle e).window.scheduled = w.scheduled
  fails : ∀ fault, w.fault? e = some fault → (w.handle e).window.failed = true ∧
    ∃ d, fault.diagnostic? = some d ∧ errors (w.handle e).notices = [d]
  succeeds : w.fault? e = none →
    (w.handle e).window.failed = w.failed ∧ errors (w.handle e).notices = []
  handled : (w.handle e).unhandled = none

variable {w : Window} {e : WindowEvent} {events before rest : List WindowEvent}

/-- An event that meets no fault and does not close the window. -/
theorem Reacts.of_quiet (hclose : e ≠ .close) (hfault : w.fault? e = none)
    (hscheduled : (w.handle e).window.scheduled = w.scheduled)
    (hfailed : (w.handle e).window.failed = w.failed)
    (herrors : errors (w.handle e).notices = []) (hhandled : (w.handle e).unhandled = none) :
    w.Reacts e where
  stops := by
    rintro (rfl | ⟨fault, hsome⟩)
    · exact absurd rfl hclose
    · rw [hfault] at hsome
      cases hsome
  goesOn _ := hscheduled
  fails := by
    intro fault hsome
    rw [hfault] at hsome
    cases hsome
  succeeds _ := ⟨hfailed, herrors⟩
  handled := hhandled

theorem reacts_cpuTick (h : w.StandardMemory) : w.Reacts .cpuTick := by
  by_cases hscheduled : w.isScheduled .cpu = true
  · have hhandle : w.handle .cpuTick = w.cpuTick := if_pos hscheduled
    have hfault : w.fault? .cpuTick = w.session.machine.fault? := if_pos hscheduled
    cases hresult : w.session.machine.step.result with
    | ok ins =>
      have hnone : w.fault? .cpuTick = none := by
        rw [hfault, Machine.fault?, hresult]
      have htick := hhandle.trans (cpuTick_of_ok hresult)
      refine .of_quiet (by simp) hnone ?_ ?_ ?_ ?_
      all_goals rw [htick]
      · rfl
      · rfl
      · exact errors_logged _
    | error fault =>
      have hsome : w.fault? .cpuTick = some fault := by
        rw [hfault, Machine.fault?, hresult]
      obtain ⟨d, dump, hd, -, htick⟩ := cpuTick_of_error h hresult
      have hreaction := hhandle.trans htick
      constructor
      · intro _
        rw [hreaction]
      · intro hgoes
        exact absurd (.inr ⟨fault, hsome⟩) hgoes
      · intro fault' hfault'
        rw [hsome] at hfault'
        cases hfault'
        rw [hreaction]
        refine ⟨rfl, d, hd, ?_⟩
        rw [errors_append, stepTrace, errors_logged, List.nil_append]
        exact congrArg (d :: ·) (errors_logged _)
      · intro hnone
        rw [hsome] at hnone
        cases hnone
      · rw [hreaction]
  · have hhandle : w.handle .cpuTick = { window := w } := if_neg hscheduled
    have hfault : w.fault? .cpuTick = none := if_neg hscheduled
    refine .of_quiet (by simp) hfault ?_ ?_ ?_ ?_
    all_goals rw [hhandle]
    rfl

/-- The press of a key leaves the tasks alone, and writes no more than log entries. -/
theorem keyPress_quiet (w : Window) (symbol : Int) :
    (w.keyPress symbol).window.scheduled = w.scheduled ∧
      (w.keyPress symbol).window.failed = w.failed ∧
      (∃ entries, (w.keyPress symbol).notices = logged entries) ∧
      (w.keyPress symbol).unhandled = none := by
  unfold keyPress
  by_cases hescape : symbol = w.keyboard.escape
  · rw [if_pos hescape]
    exact ⟨rfl, rfl, ⟨[], rfl⟩, rfl⟩
  · rw [if_neg hescape]
    by_cases htrace : symbol = w.keyboard.trace
    · rw [if_pos htrace]
      exact ⟨rfl, rfl, ⟨_, rfl⟩, rfl⟩
    · rw [if_neg htrace]
      cases w.keyboard.keymap.find? symbol with
      | none => exact ⟨rfl, rfl, ⟨[], rfl⟩, rfl⟩
      | some key => exact ⟨rfl, rfl, ⟨_, rfl⟩, rfl⟩

/-- **What an event does.**  It stops the tasks or leaves them alone, and reports the fault that it
meets and no other. -/
theorem reacts (h : w.StandardMemory) (e : WindowEvent) : w.Reacts e := by
  cases e with
  | cpuTick => exact reacts_cpuTick h
  | timerTick =>
    refine .of_quiet (by simp) rfl ?_ ?_ ?_ ?_
    all_goals
      rw [handle]
      split <;> rfl
  | keyPress symbol =>
    obtain ⟨hscheduled, hfailed, ⟨entries, hnotices⟩, hhandled⟩ := w.keyPress_quiet symbol
    have herrors : errors (w.keyPress symbol).notices = [] := by
      rw [hnotices]
      exact errors_logged entries
    exact .of_quiet (by simp) rfl hscheduled hfailed herrors hhandled
  | keyRelease symbol =>
    refine .of_quiet (by simp) rfl ?_ ?_ ?_ ?_
    all_goals
      rw [handle, keyRelease]
      split <;> rfl
  | draw =>
    refine .of_quiet (by simp) rfl ?_ ?_ ?_ ?_
    all_goals
      rw [handle, draw]
      split <;> rfl
  | close =>
    constructor
    · intro _
      rfl
    · intro hgoes
      exact absurd (.inl rfl) hgoes
    · rintro fault ⟨⟩
    · intro _
      exact ⟨rfl, rfl⟩
    · rfl
  | deactivate => exact .of_quiet (by simp) rfl rfl rfl rfl rfl

/-! ## What has happened in a run -/

/-- Whether some event of a run meets the window in a state in which something holds of the two. -/
def Happens (P : Window → WindowEvent → Prop) (w : Window) (events : List WindowEvent) : Prop :=
  ∃ before e rest, events = before ++ e :: rest ∧ P (w.after before) e

/-- Whether some step of a run fails. -/
def Fails (w : Window) (events : List WindowEvent) : Prop :=
  Happens (fun w e => ∃ fault, w.fault? e = some fault) w events

theorem not_happens_nil {P : Window → WindowEvent → Prop} : ¬ Happens P w [] := by
  rintro ⟨before, e, rest, hevents, -⟩
  simp at hevents

theorem happens_cons {P : Window → WindowEvent → Prop} :
    Happens P w (e :: events) ↔ P w e ∨ Happens P (w.handle e).window events := by
  constructor
  · rintro ⟨before, e', rest, hevents, hP⟩
    cases before with
    | nil =>
      cases hevents
      exact .inl hP
    | cons first before =>
      cases hevents
      exact .inr ⟨before, e', rest, rfl, hP⟩
  · rintro (hP | ⟨before, e', rest, rfl, hP⟩)
    · exact ⟨[], e, events, rfl, hP⟩
    · exact ⟨e :: before, e', rest, rfl, hP⟩

theorem Happens.append {P : Window → WindowEvent → Prop} (h : Happens P w before) :
    Happens P w (before ++ events) := by
  obtain ⟨first, e, rest, rfl, hP⟩ := h
  exact ⟨first, e, rest ++ events, by simp, hP⟩

/-- The notices of some events. -/
def notices (w : Window) (events : List WindowEvent) : List Notice :=
  (w.play events).flatMap Reaction.notices

theorem notices_append (w : Window) (before events : List WindowEvent) :
    w.notices (before ++ events) = w.notices before ++ (w.after before).notices events := by
  induction before generalizing w with
  | nil => rfl
  | cons e before ih =>
    show (w.handle e).notices ++ (w.handle e).window.notices (before ++ events) = _
    rw [ih, ← List.append_assoc]
    rfl

/-! ## Runs -/

/-- The tasks are as they were until something stops them, and from then on there are none. -/
theorem scheduled_after (h : w.StandardMemory) (events : List WindowEvent) :
    (Happens Stops w events → (w.after events).scheduled = []) ∧
      (¬ Happens Stops w events → (w.after events).scheduled = w.scheduled) := by
  induction events generalizing w with
  | nil => exact ⟨fun hnil => absurd hnil not_happens_nil, fun _ => rfl⟩
  | cons e events ih =>
    have hreacts := reacts h e
    obtain ⟨hstops, hgoes⟩ := ih (h.handle e)
    rw [happens_cons]
    by_cases hnow : w.Stops e
    · refine ⟨fun _ => ?_, fun hnot => absurd (.inl hnow) hnot⟩
      by_cases hlater : Happens Stops (w.handle e).window events
      · exact hstops hlater
      · exact (hgoes hlater).trans (hreacts.stops hnow)
    · constructor
      · rintro (hnow' | hlater)
        · exact absurd hnow' hnow
        · exact hstops hlater
      · intro hnot
        exact (hgoes fun hlater => hnot (.inr hlater)).trans (hreacts.goesOn hnow)

/-- With nothing scheduled, no event meets a fault. -/
theorem fault?_of_unscheduled (h : w.scheduled = []) (e : WindowEvent) : w.fault? e = none := by
  cases e with
  | cpuTick =>
    refine if_neg ?_
    simp [isScheduled, h]
  | _ => rfl

theorem not_fails_of_unscheduled (h : w.StandardMemory) (hscheduled : w.scheduled = []) :
    ¬ w.Fails events := by
  rintro ⟨before, e, rest, -, fault, hfault⟩
  have hstill : (w.after before).scheduled = [] := by
    by_cases hstops : Happens Stops w before
    · exact (scheduled_after h before).1 hstops
    · exact ((scheduled_after h before).2 hstops).trans hscheduled
  rw [fault?_of_unscheduled hstill e] at hfault
  cases hfault

/-- A run has failed if it had failed before or if one of its steps has failed. -/
theorem failed_after_iff (h : w.StandardMemory) :
    (w.after events).failed = true ↔ w.failed = true ∨ w.Fails events := by
  induction events generalizing w with
  | nil => simp [Fails, not_happens_nil, after]
  | cons e events ih =>
    have hreacts := reacts h e
    show ((w.handle e).window.after events).failed = true ↔ _
    rw [ih (h.handle e), Fails, Fails, happens_cons, ← or_assoc]
    refine or_congr_left ?_
    cases hfault : w.fault? e with
    | none => simp [(hreacts.succeeds hfault).1]
    | some fault => simp [(hreacts.fails fault hfault).1]

/-- A run in which no step fails reports no failure. -/
theorem errors_of_not_fails (h : w.StandardMemory) (hfails : ¬ w.Fails events) :
    errors (w.notices events) = [] := by
  induction events generalizing w with
  | nil => rfl
  | cons e events ih =>
    rw [Fails, happens_cons, not_or] at hfails
    obtain ⟨hnow, hlater⟩ := hfails
    have hfault : w.fault? e = none := by
      cases hfault : w.fault? e with
      | none => rfl
      | some fault => exact absurd ⟨fault, hfault⟩ hnow
    show errors ((w.handle e).notices ++ (w.handle e).window.notices events) = []
    rw [errors_append, ((reacts h e).succeeds hfault).2, ih (h.handle e) hlater]
    rfl

/-- The fault that a run meets is reported when it is met, and nothing else is before or after. -/
theorem errors_of_fault (h : w.StandardMemory) {fault : Fault}
    (hfault : (w.after before).fault? e = some fault) :
    ∃ d, fault.diagnostic? = some d ∧ errors ((w.after before).handle e).notices = [d] ∧
      errors (w.notices (before ++ e :: rest)) = [d] := by
  have hstandard := h.after before
  obtain ⟨-, d, hd, hnow⟩ := (reacts hstandard e).fails fault hfault
  have hbefore : errors (w.notices before) = [] := by
    apply errors_of_not_fails h
    intro hfails
    have hstops : Happens Stops w before := by
      obtain ⟨first, e', rest', hevents, hfault'⟩ := hfails
      exact ⟨first, e', rest', hevents, .inr hfault'⟩
    rw [fault?_of_unscheduled ((scheduled_after h before).1 hstops) e] at hfault
    cases hfault
  have hrest : errors (((w.after before).handle e).window.notices rest) = [] := by
    have hstopped := (reacts hstandard e).stops (.inr ⟨fault, hfault⟩)
    exact errors_of_not_fails (hstandard.handle e)
      (not_fails_of_unscheduled (hstandard.handle e) hstopped)
  refine ⟨d, hd, hnow, ?_⟩
  calc
    errors (w.notices (before ++ e :: rest))
      = errors (w.notices before) ++ (errors ((w.after before).handle e).notices ++
          errors (((w.after before).handle e).window.notices rest)) := by
        rw [notices_append, errors_append, ← errors_append ((w.after before).handle e).notices]
        rfl
    _ = [d] := by
        rw [hbefore, hnow, hrest]
        rfl

/-- With nothing scheduled, no run changes the program. -/
theorem program_after (h : w.StandardMemory) (hscheduled : w.scheduled = [])
    (events : List WindowEvent) :
    (w.after events).session.machine.program = w.session.machine.program := by
  induction events generalizing w with
  | nil => rfl
  | cons e events ih =>
    have hnone : ∀ task, w.isScheduled task = false := by
      intro task
      simp [isScheduled, hscheduled]
    have hstill : (w.handle e).window.scheduled = [] := by
      by_cases hstops : w.Stops e
      · exact (reacts h e).stops hstops
      · exact ((reacts h e).goesOn hstops).trans hscheduled
    have hhandle : (w.handle e).window.session.machine.program = w.session.machine.program :=
      (congrArg Machine.program (w.machine_handle e)).trans
        (w.session.machine.program_performed hnone w.keyboard e)
    exact (ih (h.handle e) hstill).trans hhandle

/-- A run that the host has no more events for returns its code: nothing escapes on the way. -/
theorem run_eq (h : w.StandardMemory) (events : List WindowEvent) :
    w.run events = ⟨w.notices events, .returned (w.after events).exitCode⟩ := by
  induction events generalizing w with
  | nil => rfl
  | cons e events ih =>
    rw [run]
    simp only [(reacts h e).handled, ih (h.handle e)]
    rfl

/-- What a run writes is read as it is meant. -/
theorem clear_notices (h : w.StandardMemory) (events : List WindowEvent) :
    ∀ n ∈ w.notices events, n.Clear := by
  induction events generalizing w with
  | nil => simp [notices, play]
  | cons e events ih =>
    show ∀ n ∈ (w.handle e).notices ++ (w.handle e).window.notices events, n.Clear
    rw [List.forall_mem_append]
    exact ⟨clear_handle h e, ih (h.handle e)⟩

/-- The fault that a run meets is printed when it is met, and no other is before or after. -/
theorem printed_of_fault (h : w.StandardMemory) {fault : Fault}
    (hfault : (w.after before).fault? e = some fault) :
    ∃ d, fault.diagnostic? = some d ∧
      (errors ((w.after before).handle e).notices = [d] ∧
        errors (w.notices (before ++ e :: rest)) = [d]) ∧
      errorLines (join ((w.after before).handle e).notices) = [errorLine d] ∧
      errorLines (join (w.notices (before ++ e :: rest))) = [errorLine d] := by
  obtain ⟨d, hd, hnow, hrun⟩ : ∃ d, fault.diagnostic? = some d ∧
      errors ((w.after before).handle e).notices = [d] ∧
      errors (w.notices (before ++ e :: rest)) = [d] := errors_of_fault h hfault
  refine ⟨d, hd, ⟨hnow, hrun⟩, ?_, ?_⟩
  · rw [errorLines_join (clear_handle (h.after before) e), hnow]
    rfl
  · rw [errorLines_join (clear_notices h _), hrun]
    rfl

/-- A run in which no step fails prints no failure. -/
theorem silent_of_not_fails (h : w.StandardMemory) (hfails : ¬ w.Fails events) :
    errors (w.notices events) = [] ∧ errorLines (join (w.notices events)) = [] := by
  have hnone := errors_of_not_fails h hfails
  refine ⟨hnone, ?_⟩
  rw [errorLines_join (clear_notices h events), hnone]
  rfl

/-! ## The application -/

/-- The ways in which halting is final, for a window, its keyboard and its settings. -/
structure HaltsForGood (w : Window) (keyboard : Keyboard) (settings : Settings)
    (contents : Except ReadError (List UInt8)) : Prop where
  /-- The tasks are scheduled until the first event that stops them. -/
  stops : ∀ events task, (w.after events).isScheduled task = true ↔ ¬ Happens Stops w events
  /-- Neither task is ever scheduled again. -/
  forGood : ∀ before events task, (w.after before).isScheduled task = false →
    ∀ other, (w.after (before ++ events)).isScheduled other = false
  /-- From then on the program stays as it is. -/
  frozen : ∀ before events task, (w.after before).isScheduled task = false →
    (w.after (before ++ events)).session.machine.program = (w.after before).session.machine.program
  /-- The mark of failure says whether a step has failed. -/
  failed : ∀ events, (w.after events).failed = true ↔ w.Fails events
  staysFailed : ∀ before events, (w.after before).failed = true →
    (w.after (before ++ events)).failed = true
  /-- A step that fails reports its fault at once, and the whole run reports no other.  The report
  is printed as one line, and no other line that is printed looks like one. -/
  reported : ∀ before e rest fault, (w.after before).fault? e = some fault →
    ∃ d, fault.diagnostic? = some d ∧
      (errors ((w.after before).handle e).notices = [d] ∧
        errors (w.notices (before ++ e :: rest)) = [d]) ∧
      errorLines (join ((w.after before).handle e).notices) = [errorLine d] ∧
      errorLines (join (w.notices (before ++ e :: rest))) = [errorLine d]
  /-- Without a step that fails, nothing is reported and nothing that is printed looks like a
  report. -/
  silent : ∀ events, ¬ w.Fails events →
    errors (w.notices events) = [] ∧ errorLines (join (w.notices events)) = []
  /-- The application reports what its window does, and returns 1 if the program has failed and 0
  if not.  It prints what the loading of the program has logged, and then what its window does. -/
  returns : ∀ words read events, CommandLine.Request.ofArguments words = .ok (.run settings) →
    read settings.rom = contents →
      errors (Application.run keyboard words read events).notices = errors (w.notices events) ∧
        (Application.run keyboard words read events).errorText =
          LogEntry.join (Rom.loadFile (Launch.logger settings) settings.rom contents).2 ++
            join (w.notices events) ∧
        (Application.run keyboard words read events).ending =
          .returned (if (w.after events).failed then 1 else 0)

variable {keyboard : Keyboard} {settings : Settings} {contents : Except ReadError (List UInt8)}

/-- A launch that opens a window writes what the loading of the program has logged. -/
theorem notices_of_opened (h : (Launch.run keyboard settings contents).result = .opened w) :
    (Launch.run keyboard settings contents).notices =
      logged (Rom.loadFile (Launch.logger settings) settings.rom contents).2 := by
  obtain ⟨memory, hload, -⟩ := Launch.result_eq_opened_iff.mp h
  rw [Launch.notices_run, Launch.refusal, hload, List.append_nil]

/-- An application that opens a window runs it. -/
theorem application_eq (h : (Launch.run keyboard settings contents).result = .opened w)
    {words : List String} {read : String → Except ReadError (List UInt8)}
    (hwords : CommandLine.Request.ofArguments words = .ok (.run settings))
    (hread : read settings.rom = contents) (events : List WindowEvent) :
    Application.run keyboard words read events =
      (w.run events).withNotices (Launch.run keyboard settings contents).notices := by
  have hlaunch : Launch.ofArguments keyboard words read = Launch.run keyboard settings contents := by
    rw [Launch.ofArguments, hwords, ← hread]
  rw [Application.run]
  simp only [hlaunch, h]

/-- **Halting is final.**  Whatever happens to an opened window, its tasks run together until it is
closed or a step fails, and never again; then nothing changes the program any more.  Only the first
step that fails is reported, on one line of what is printed, and the code of the application tells
whether there was one. -/
theorem halting_is_final (h : (Launch.run keyboard settings contents).result = .opened w) :
    w.HaltsForGood keyboard settings contents := by
  obtain ⟨hstandard, hscheduled, hfailed⟩ := state_of_opened h
  have hstops : ∀ events task,
      (w.after events).isScheduled task = true ↔ ¬ Happens Stops w events := by
    intro events task
    obtain ⟨hstopped, hgoesOn⟩ := scheduled_after hstandard events
    constructor
    · intro htask hhappens
      simp [isScheduled, hstopped hhappens] at htask
    · intro hnot
      rw [isScheduled, hgoesOn hnot]
      exact hscheduled task
  have hhappens : ∀ before task, (w.after before).isScheduled task = false →
      Happens Stops w before := by
    intro before task htask
    by_contra hnot
    rw [(hstops before task).mpr hnot] at htask
    cases htask
  have hfails : ∀ events, (w.after events).failed = true ↔ w.Fails events := by
    intro events
    simp [failed_after_iff hstandard, hfailed]
  constructor
  · exact hstops
  · intro before events task htask other
    have hlater : Happens Stops w (before ++ events) := (hhappens before task htask).append
    rw [Bool.eq_false_iff, Ne, hstops]
    exact not_not.mpr hlater
  · intro before events task htask
    have hnone := (scheduled_after hstandard before).1 (hhappens before task htask)
    rw [after_append]
    exact program_after (hstandard.after before) hnone events
  · exact hfails
  · intro before events hbefore
    exact (hfails _).mpr ((hfails before).mp hbefore).append
  · intro before e rest fault hfault
    exact printed_of_fault hstandard hfault
  · intro events hnot
    exact silent_of_not_fails hstandard hnot
  · intro words read events hwords hread
    rw [application_eq h hwords hread, run_eq hstandard, notices_of_opened h]
    refine ⟨?_, ?_, rfl⟩
    · exact (errors_append _ _).trans (congrArg (· ++ _) (errors_logged _))
    · exact (join_append _ _).trans (congrArg (· ++ _) (join_logged _))

/-- A program that returns at once, though nothing has called it. -/
def returningRom : List UInt8 :=
  [0x00, 0xEE]

def returningMemory : Memory :=
  Memory.image Memory.standardSize returningRom

/-- Settings for that program, with tracing on. -/
def returning : Settings :=
  { clearing with rom := "return.ch8", verbose := true }

theorem load_returning :
    (Memory.blank Memory.standardSize).load returningRom = .ok returningMemory :=
  Memory.load_blank (by decide)

theorem exists_returning :
    ∃ w, (Launch.run .standard returning (.ok returningRom)).result = .opened w ∧
      w.session.machine = Launch.machine returningMemory ∧ w.isScheduled .cpu = true :=
  exists_opened load_returning (show returning.cpuHz < rateLimit by decide +kernel)
    (show returning.timerHz < rateLimit by decide +kernel)

theorem returning_fails :
    (Launch.machine returningMemory).Fails (.stackUnderflow 0x200 0x00EE) := by
  obtain ⟨hrange, hword⟩ := Machine.word_image (m := Launch.machine returningMemory)
    (by decide) rfl rfl
  refine .refused ⟨hrange.1, hrange.2.2⟩ ?_
  rw [hword]
  exact .stackUnderflow (by decide) rfl

/-- The first step of that program fails, and its fault is all that is ever reported and printed. -/
theorem returning_halts_for_good :
    ∃ w, (Launch.run .standard returning (.ok returningRom)).result = .opened w ∧
      w.HaltsForGood .standard returning (.ok returningRom) ∧ w.Fails [.cpuTick] ∧
      ∀ events, errors (w.notices (.cpuTick :: events)) = [.stackUnderflow 0x200 0x00EE] ∧
        errorLines (join (w.notices (.cpuTick :: events))) =
          [errorLine (.stackUnderflow 0x200 0x00EE)] := by
  obtain ⟨w, hopened, hmachine, hscheduled⟩ := exists_returning
  have hfinal := halting_is_final hopened
  have hfault : w.fault? .cpuTick = some (.stackUnderflow 0x200 0x00EE) := by
    rw [fault?, if_pos hscheduled, Machine.fault?, hmachine,
      Machine.step_error_iff.mpr returning_fails]
  refine ⟨w, hopened, hfinal, ⟨[], .cpuTick, [], rfl, _, hfault⟩, ?_⟩
  intro events
  obtain ⟨d, hd, ⟨-, hreported⟩, -, hprinted⟩ := hfinal.reported [] .cpuTick events _ hfault
  cases hd
  exact ⟨hreported, hprinted⟩

end Window

end Chip8
