import Chip8.Proofs.Halting

/-!
# The window drives a plain machine

A window is a plain machine that somebody else works: a machine that performs one action for each
event that stands for one, and that is no longer stepped once a step has failed or the window is
closed, is the machine of the window at any time.

The one thing in which the two differ is the mark of the screen, which only the drawing of the
window takes away.  Nothing that a machine does depends on it (`Machine.perform_congr`), so the
difference stays without consequences.

The main result is `Window.drives_machine`.
-/

namespace Chip8

/-! ## The mark of the screen -/

namespace Screen

theorem drawRows_markShown (s : Screen) (x y : Int) (sprite : List UInt8) :
    s.markShown.drawRows x y sprite =
      ((s.drawRows x y sprite).1.markShown, (s.drawRows x y sprite).2) := by
  induction sprite generalizing s y with
  | nil => rfl
  | cons bits rest ih =>
    have hrow : s.markShown.drawRow x y bits = (s.drawRow x y bits).markShown := rfl
    rw [drawRows, hrow, ih]
    rfl

/-- A drawn sprite marks the screen, whether or not it was marked. -/
theorem draw_markShown (s : Screen) (x y : Int) (sprite : List UInt8) :
    s.markShown.draw x y sprite = s.draw x y sprite := by
  rw [draw, drawRows_markShown]
  rfl

theorem place_markShown (s : Screen) (x y : Int) (sprite : List UInt8) :
    s.markShown.place x y sprite = s.place x y sprite := by
  rw [place, place, draw_markShown]

end Screen

namespace Machine

variable {α : Type} {m m' : Machine}

/-- The result of an operation, seen by somebody who does not look at the mark of the screen. -/
def seen : EStateM.Result Fault Machine α → EStateM.Result Fault Machine α
  | .ok a next => .ok a next.shown
  | .error fault next => .error fault next.shown

@[simp] theorem memory_shown (m : Machine) : m.shown.memory = m.memory := rfl

@[simp] theorem keypad_shown (m : Machine) : m.shown.keypad = m.keypad := rfl

@[simp] theorem v_shown (m : Machine) : m.shown.v = m.v := rfl

@[simp] theorem i_shown (m : Machine) : m.shown.i = m.i := rfl

@[simp] theorem pc_shown (m : Machine) : m.shown.pc = m.pc := rfl

@[simp] theorem stack_shown (m : Machine) : m.shown.stack = m.stack := rfl

@[simp] theorem screen_shown (m : Machine) : m.shown.screen = m.screen.markShown := rfl

/-- No instruction depends on the mark of the screen. -/
theorem seen_execute (ins : Instruction) (m : Machine) :
    seen ((execute ins).run m.shown) = seen ((execute ins).run m) := by
  rw [execute, Exec.run_get_bind, Exec.run_get_bind]
  cases hk : ins.mnemonic with
  | none => rfl
  | some k =>
    cases k with
    | ret =>
      simp only [run_returnFrom, stack_shown]
      cases m.stack.pop? <;> rfl
    | call =>
      rw [run_callTo, run_callTo, stack_shown, pc_shown]
      cases m.stack.push? (UInt16.ofInt m.pc) with
      | none => rfl
      | some stack =>
        simp only
        split <;> rfl
    | drw =>
      rw [run_drawSprite, run_drawSprite, memory_shown, i_shown, v_shown, screen_shown]
      simp only [Screen.draw_markShown]
      split <;> rfl
    | sknp =>
      rw [run_skipUnlessDown, run_skipUnlessDown, v_shown, keypad_shown]
      split
      · split <;> rfl
      · rfl
    | ldDigits =>
      rw [run_storeDigits, run_storeDigits, memory_shown, i_shown, v_shown]
      split <;> rfl
    | load =>
      rw [run_loadRegisters, run_loadRegisters, memory_shown, i_shown, v_shown]
      split <;> rfl
    | seByte | sneByte | seReg | sneReg =>
      simp only [run_skipIf, v_shown]
      split <;> rfl
    | _ => rfl

theorem step_shown (m : Machine) :
    m.shown.step.result = m.step.result ∧ m.shown.step.machine.shown = m.step.machine.shown := by
  have hfetch : m.shown.fetch = m.fetch := rfl
  have hadvance : m.shown.advance = m.advance.shown := rfl
  rw [step_eq, step_eq, hfetch, hadvance]
  cases m.fetch with
  | error access => exact ⟨rfl, rfl⟩
  | ok ins =>
    have hseen := seen_execute ins m.advance
    simp only
    cases hmarked : (execute ins).run m.advance with
    | ok u next =>
      cases hshown : (execute ins).run m.advance.shown with
      | ok u' next' =>
        rw [hmarked, hshown] at hseen
        have hnext : next'.shown = next.shown := (EStateM.Result.ok.inj hseen).2
        exact ⟨rfl, congrArg (fun m => { m with cycles := m.cycles + 1 }) hnext⟩
      | error fault' next' =>
        rw [hmarked, hshown] at hseen
        cases hseen
    | error fault next =>
      cases hshown : (execute ins).run m.advance.shown with
      | ok u' next' =>
        rw [hmarked, hshown] at hseen
        cases hseen
      | error fault' next' =>
        rw [hmarked, hshown] at hseen
        obtain ⟨hfault, hnext⟩ := EStateM.Result.error.inj hseen
        exact ⟨congrArg Except.error hfault, hnext⟩

theorem run_shown (n : Nat) (m : Machine) :
    (m.shown.run n).result = (m.run n).result ∧
      (m.shown.run n).machine.shown = (m.run n).machine.shown := by
  induction n generalizing m with
  | zero => exact ⟨rfl, rfl⟩
  | succ n ih =>
    obtain ⟨hresult, hmachine⟩ := m.step_shown
    rw [run, run]
    rcases hmarked : m.step with ⟨next, fault | ins⟩ <;>
      rcases hshown : m.shown.step with ⟨next', fault' | ins'⟩ <;>
      simp only [hmarked, hshown, Except.ok.injEq, Except.error.injEq, reduceCtorEq]
        at hresult hmachine
    · exact ⟨congrArg Except.error hresult, hmachine⟩
    · -- both machines go on from the same state but for the mark
      have hnext := ih next
      have hnext' := ih next'
      rw [hmachine] at hnext'
      exact ⟨hnext'.1.symm.trans hnext.1, hnext'.2.symm.trans hnext.2⟩

/-- No action depends on the mark of the screen. -/
theorem perform_shown (m : Machine) (action : Action) :
    (m.shown.perform action).result = (m.perform action).result ∧
      (m.shown.perform action).machine.shown = (m.perform action).machine.shown := by
  cases action with
  | step =>
    obtain ⟨hresult, hmachine⟩ := m.step_shown
    refine ⟨?_, hmachine⟩
    simp only [perform, hresult]
  | run n =>
    obtain ⟨hresult, hmachine⟩ := m.run_shown n
    refine ⟨?_, hmachine⟩
    simp only [perform, hresult]
  | press key =>
    simp only [perform, keypad_shown]
    cases m.keypad.press key <;> exact ⟨rfl, rfl⟩
  | release key =>
    simp only [perform, keypad_shown]
    cases m.keypad.release key <;> exact ⟨rfl, rfl⟩
  | load rom =>
    simp only [perform, memory_shown]
    cases m.memory.load rom <;> exact ⟨rfl, rfl⟩
  | write address values =>
    simp only [perform, memory_shown]
    cases m.memory.write address values <;> exact ⟨rfl, rfl⟩
  | draw x y sprite =>
    simp only [perform, screen_shown, Screen.place_markShown]
    cases m.screen.place x y sprite <;> exact ⟨rfl, rfl⟩
  | tick | isDown key | resetKeys | clearScreen => exact ⟨rfl, rfl⟩

/-- Machines that differ in the mark of the screen do the same. -/
theorem perform_congr (h : m.shown = m'.shown) (action : Action) :
    (m.perform action).result = (m'.perform action).result ∧
      (m.perform action).machine.shown = (m'.perform action).machine.shown := by
  obtain ⟨hresult, hmachine⟩ := m.perform_shown action
  obtain ⟨hresult', hmachine'⟩ := m'.perform_shown action
  rw [h] at hresult hmachine
  exact ⟨hresult.symm.trans hresult', hmachine.symm.trans hmachine'⟩

end Machine

/-! ## Followers -/

/-- A plain machine that follows the events of a window, and whether it still runs. -/
structure Follower where
  machine : Machine
  running : Bool

namespace Follower

/-- Follows an event: the machine performs the action that the event stands for, if there is one.
It runs no longer once an action has failed or the window is closed. -/
def next (keyboard : Keyboard) (f : Follower) (e : WindowEvent) : Follower :=
  match e.action? keyboard fun _ => f.running with
  | some action =>
    let after := f.machine.perform action
    ⟨after.machine, f.running && after.result.isOk⟩
  | none => ⟨f.machine, f.running && e != .close⟩

/-- Follows one event after the other. -/
def after (keyboard : Keyboard) (f : Follower) (events : List WindowEvent) : Follower :=
  events.foldl (next keyboard) f

/-- The actions that events ask of a follower, in their order. -/
def asked (keyboard : Keyboard) (f : Follower) : List WindowEvent → List Action
  | [] => []
  | e :: events =>
    (e.action? keyboard fun _ => f.running).toList ++ (f.next keyboard e).asked keyboard events

variable {keyboard : Keyboard}

/-- The machine of a follower has performed what the follower was asked for, and nothing else. -/
theorem machine_after (f : Follower) (events : List WindowEvent) :
    (f.after keyboard events).machine = f.machine.after (f.asked keyboard events) := by
  induction events generalizing f with
  | nil => rfl
  | cons e events ih =>
    show ((f.next keyboard e).after keyboard events).machine = _
    rw [ih, asked, next]
    cases e.action? keyboard fun _ => f.running with
    | none => rfl
    | some action => rfl

end Follower

namespace Window

variable {keyboard : Keyboard} {w : Window} {f : Follower} {e : WindowEvent}

/-- A window with a keyboard and its follower: they have the same machine, but for the mark of the
screen, and each task of the window is scheduled if and only if the follower runs. -/
structure FollowedBy (keyboard : Keyboard) (w : Window) (f : Follower) : Prop where
  keys : w.keyboard = keyboard
  standard : w.StandardMemory
  machine : w.session.machine.shown = f.machine.shown
  tasks : ∀ task, w.isScheduled task = f.running

/-- Only the ticks of the scheduled task stand for steps. -/
theorem action?_eq_step_iff {scheduled : WindowTask → Bool} :
    e.action? keyboard scheduled = some .step ↔ e = .cpuTick ∧ scheduled .cpu = true := by
  cases e <;> simp [WindowEvent.action?]

/-- Of the actions that events stand for, only steps fail. -/
theorem isOk_of_action? {scheduled : WindowTask → Bool} {action : Action} (m : Machine)
    (h : e.action? keyboard scheduled = some action) (hstep : action ≠ .step) :
    (m.perform action).result.isOk = true := by
  cases e with
  | cpuTick =>
    simp only [WindowEvent.action?] at h
    split at h <;> cases h
    exact absurd rfl hstep
  | timerTick =>
    simp only [WindowEvent.action?] at h
    split at h <;> cases h
    rfl
  | keyPress symbol =>
    obtain ⟨k, -, rfl⟩ := Option.map_eq_some_iff.mp h
    rw [Machine.perform, Keypad.press_val]
    rfl
  | keyRelease symbol =>
    obtain ⟨k, -, rfl⟩ := Option.map_eq_some_iff.mp h
    rw [Machine.perform, Keypad.release_val]
    rfl
  | deactivate =>
    cases h
    rfl
  | draw | close => cases h

theorem isOk_step_eq_false_iff (m : Machine) :
    (m.perform .step).result.isOk = false ↔ ∃ fault, m.fault? = some fault := by
  rw [Machine.perform, Machine.fault?]
  cases m.step.result with
  | ok ins =>
    constructor
    · intro h
      cases h
    · rintro ⟨fault, hfault⟩
      cases hfault
  | error fault => exact ⟨fun _ => ⟨fault, rfl⟩, fun _ => rfl⟩

/-- What stops the tasks of a window: its closing, or an action that fails. -/
theorem stops_iff (w : Window) (e : WindowEvent) :
    w.Stops e ↔ e = .close ∨ ∃ action, e.action? w.keyboard w.isScheduled = some action ∧
      (w.session.machine.perform action).result.isOk = false := by
  refine or_congr_right ?_
  constructor
  · rintro ⟨fault, hfault⟩
    cases e with
    | cpuTick =>
      by_cases hscheduled : w.isScheduled .cpu = true
      · rw [fault?, if_pos hscheduled] at hfault
        exact ⟨.step, if_pos hscheduled, (isOk_step_eq_false_iff _).mpr ⟨fault, hfault⟩⟩
      · rw [fault?, if_neg hscheduled] at hfault
        cases hfault
    | _ => cases hfault
  · rintro ⟨action, haction, hfails⟩
    by_cases hstep : action = .step
    · subst hstep
      obtain ⟨rfl, hscheduled⟩ := action?_eq_step_iff.mp haction
      obtain ⟨fault, hfault⟩ := (isOk_step_eq_false_iff _).mp hfails
      exact ⟨fault, (if_pos hscheduled).trans hfault⟩
    · rw [isOk_of_action? _ haction hstep] at hfails
      cases hfails

theorem FollowedBy.next (h : FollowedBy keyboard w f) (e : WindowEvent) :
    FollowedBy keyboard (w.handle e).window (f.next keyboard e) := by
  have hscheduled : w.isScheduled = fun _ => f.running := funext h.tasks
  have hmachine := w.machine_handle e
  have hreacts := reacts h.standard e
  rw [h.keys, hscheduled] at hmachine
  constructor
  · exact (w.keyboard_handle e).trans h.keys
  · exact h.standard.handle e
  · cases haction : e.action? keyboard fun _ => f.running with
    | none =>
      rw [haction] at hmachine
      simp only [Follower.next, haction]
      exact hmachine.trans h.machine
    | some action =>
      rw [haction] at hmachine
      simp only [Follower.next, haction]
      exact hmachine.trans (Machine.perform_congr h.machine action).2
  · intro task
    by_cases hstops : w.Stops e
    · have hnone : (w.handle e).window.isScheduled task = false := by
        rw [isScheduled, hreacts.stops hstops]
        rfl
      rw [hnone]
      rcases (w.stops_iff e).mp hstops with rfl | ⟨action, haction, hfails⟩
      · simp [Follower.next, WindowEvent.action?]
      · rw [h.keys, hscheduled] at haction
        rw [(Machine.perform_congr h.machine action).1] at hfails
        simp [Follower.next, haction, hfails]
    · have hsame : (w.handle e).window.isScheduled task = f.running := by
        rw [isScheduled, hreacts.goesOn hstops]
        exact h.tasks task
      rw [hsame]
      rw [stops_iff, not_or, h.keys, hscheduled] at hstops
      obtain ⟨hclose, hfails⟩ := hstops
      cases haction : e.action? keyboard fun _ => f.running with
      | none => simp [Follower.next, haction, hclose]
      | some action =>
        have hok : (f.machine.perform action).result.isOk = true := by
          rw [← (Machine.perform_congr h.machine action).1]
          by_contra hnot
          exact hfails ⟨action, haction, Bool.eq_false_iff.mpr hnot⟩
        simp [Follower.next, haction, hok]

theorem FollowedBy.after (h : FollowedBy keyboard w f) (events : List WindowEvent) :
    FollowedBy keyboard (w.after events) (f.after keyboard events) := by
  induction events generalizing w f with
  | nil => exact h
  | cons e events ih => exact ih (h.next e)

/-- **The window drives a plain machine.**  Whatever happens to a window that was opened for a
program, its machine is a plain machine with the same program that has performed what the events ask
of a follower, and its tasks are scheduled as long as the follower runs.  If the symbols of the
keyboard are distinct, the events of a key are about the key of the layout with its symbol. -/
theorem drives_machine {settings : Settings} {rom : List UInt8} {memory : Memory}
    (hload : (Memory.blank Memory.standardSize).load rom = .ok memory)
    (h : (Launch.run keyboard settings (.ok rom)).result = .opened w) (events : List WindowEvent) :
    (w.after events).session.machine.shown =
        ((Launch.machine memory).after
          ((Follower.mk (Launch.machine memory) true).asked keyboard events)).shown ∧
      (∀ task, (w.after events).isScheduled task =
        ((Follower.mk (Launch.machine memory) true).after keyboard events).running) ∧
      (keyboard.Distinct → ∀ symbol k,
        (keyboard.pressed? symbol = some k ↔ keyboard.keySymbol? k = some symbol) ∧
        (keyboard.released? symbol = some k ↔ keyboard.keySymbol? k = some symbol)) := by
  obtain ⟨hstandard, hscheduled, -⟩ := state_of_opened h
  obtain ⟨hmachine, hkeys⟩ :
      w.session.machine = Launch.machine memory ∧ w.keyboard = keyboard := by
    obtain ⟨loaded, hloaded, hstart⟩ := Launch.result_eq_opened_iff.mp h
    rw [Rom.load_ok, hload] at hloaded
    cases hloaded
    obtain ⟨hsession, -, hkeys⟩ := of_start hstart
    exact ⟨congrArg Session.machine hsession, hkeys⟩
  have hfollowed : FollowedBy keyboard w ⟨Launch.machine memory, true⟩ :=
    ⟨hkeys, hstandard, congrArg Machine.shown hmachine, hscheduled⟩
  obtain ⟨-, -, hsame, htasks⟩ := hfollowed.after events
  rw [Follower.machine_after] at hsame
  refine ⟨hsame, htasks, ?_⟩
  intro hdistinct symbol k
  exact ⟨Keyboard.pressed?_eq_some_iff hdistinct, Keyboard.released?_eq_some_iff hdistinct⟩

/-- The follower of a program that returns at once stops with its first step, and the timer of the
window with it.  The keys of the standard keyboard are distinct. -/
theorem returning_drives_machine :
    ∃ w, (Launch.run .standard returning (.ok returningRom)).result = .opened w ∧
      (∀ events, (w.after events).session.machine.shown =
        ((Launch.machine returningMemory).after
          ((Follower.mk (Launch.machine returningMemory) true).asked .standard events)).shown) ∧
      (w.after [.cpuTick]).isScheduled .timer = false ∧
      Keyboard.standard.Distinct ∧
      ∀ symbol k, Keyboard.standard.pressed? symbol = some k ↔
        Keyboard.standard.keySymbol? k = some symbol := by
  obtain ⟨w, hopened, -, -⟩ := exists_returning
  have hdriven := drives_machine load_returning hopened
  have hstops : ((Launch.machine returningMemory).perform .step).result.isOk = false := by
    rw [isOk_step_eq_false_iff, Machine.fault?, Machine.step_error_iff.mpr returning_fails]
    exact ⟨_, rfl⟩
  refine ⟨w, hopened, fun events => (hdriven events).1, ?_, Keyboard.distinct_standard, ?_⟩
  · rw [(hdriven [.cpuTick]).2.1]
    simp only [Follower.after, List.foldl_cons, List.foldl_nil, Follower.next,
      WindowEvent.action?, if_true, hstops, Bool.and_false]
  · intro symbol k
    exact ((hdriven []).2.2 Keyboard.distinct_standard symbol k).1

end Window

end Chip8
