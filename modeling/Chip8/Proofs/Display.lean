import Chip8.Launch
import Chip8.Proofs.History

/-!
# What the window shows

The window gives its host a picture only when the screen may have changed, and the host keeps the
picture that it was given last.  What is shown is then right only if each change of the screen is
noticed: an instruction that writes to the screen marks it as changed, any other leaves it alone, a
failing step leaves it alone too, and only the drawing of the window takes the mark away.

The invariant is that the host's picture is the present one unless the screen is marked
(`Window.Tracks`).  It is kept by every event, before and after a halt, and gives the main result
(`Window.shows_the_screen`).
-/

namespace Chip8

/-! ## The host's picture -/

namespace Effect

/-- The picture that a host holds after some effects, if it holds one before: it keeps the last that
it was given. -/
def held (picture : Image) : List Effect → Image
  | [] => picture
  | .setImage new :: rest => held new rest
  | _ :: rest => held picture rest

/-- The pictures that a host shows, one for each blit. -/
def shown (picture : Image) : List Effect → List Image
  | [] => []
  | .setImage new :: rest => shown new rest
  | .blit _ _ :: rest => picture :: shown picture rest
  | _ :: rest => shown picture rest

/-- Whether a host is given a new picture. -/
def updates (effects : List Effect) : Prop :=
  ∃ picture, .setImage picture ∈ effects

theorem held_append (picture : Image) (first rest : List Effect) :
    held picture (first ++ rest) = held (held picture first) rest := by
  induction first generalizing picture with
  | nil => rfl
  | cons effect first ih => cases effect <;> exact ih _

theorem held_of_not_updates {effects : List Effect} (h : ¬ updates effects) (picture : Image) :
    held picture effects = picture := by
  induction effects with
  | nil => rfl
  | cons effect effects ih =>
    have hrest : ¬ updates effects := by
      rintro ⟨new, hnew⟩
      exact h ⟨new, List.mem_cons_of_mem _ hnew⟩
    cases effect with
    | setImage new => exact absurd ⟨new, List.mem_cons_self⟩ h
    | _ => exact ih hrest

end Effect

namespace Window

open Effect

/-- The effects of some events. -/
def effects (w : Window) (events : List WindowEvent) : List Effect :=
  (w.play events).flatMap Reaction.effects

/-- The instructions that an event completes. -/
def executed (w : Window) : WindowEvent → List Executed
  | .cpuTick => if w.isScheduled .cpu then w.session.machine.stepped else []
  | _ => []

/-- The instructions that some events complete, in their order. -/
def history (w : Window) : List WindowEvent → List Executed
  | [] => []
  | e :: es => w.executed e ++ (w.handle e).window.history es

/-- Whether one of the instructions has written to the screen. -/
def Painted (executed : List Executed) : Prop :=
  ∃ e ∈ executed, e.ins.paints = true

/-- The screen of the machine. -/
def screen (w : Window) : Screen :=
  w.session.machine.screen

variable {w : Window} {e : WindowEvent} {events : List WindowEvent} {picture : Image} {scale : Nat}

theorem effects_cons (w : Window) (e : WindowEvent) (es : List WindowEvent) :
    w.effects (e :: es) = (w.handle e).effects ++ (w.handle e).window.effects es :=
  rfl

theorem painted_append (first rest : List Executed) :
    Painted (first ++ rest) ↔ Painted first ∨ Painted rest := by
  simp [Painted, or_and_right, exists_or]

theorem after_append (w : Window) (first rest : List WindowEvent) :
    w.after (first ++ rest) = (w.after first).after rest :=
  List.foldl_append

/-! ## Events that do not draw -/

/-- What an event that does not draw does to the display: it updates no picture, and the screen is
marked if an instruction has written to it and untouched otherwise. -/
structure Unshown (w : Window) (executed : List Executed) (reaction : Reaction) : Prop where
  scale : reaction.window.scale = w.scale
  quiet : ¬ updates reaction.effects
  marked : Painted executed → reaction.window.screen.dirty = true
  untouched : ¬ Painted executed → reaction.window.screen = w.screen

/-- A reaction without effects that leaves scale and screen alone. -/
theorem Unshown.of_eq {reaction : Reaction} (hscale : reaction.window.scale = w.scale)
    (hquiet : ¬ updates reaction.effects) (hscreen : reaction.window.screen = w.screen) :
    Unshown w [] reaction where
  scale := hscale
  quiet := hquiet
  marked := by
    rintro ⟨e, he, -⟩
    cases he
  untouched _ := hscreen

theorem not_updates_nil : ¬ updates [] := by
  rintro ⟨picture, hpicture⟩
  cases hpicture

/-- A halt changes the title and no picture, and leaves the machine alone. -/
theorem halt_display (w : Window) (d : Diagnostic) :
    (w.halt d).window.scale = w.scale ∧ (w.halt d).window.session = w.session ∧
      ¬ updates (w.halt d).effects := by
  have hcaption : ¬ updates [.setCaption haltedCaption] := by
    rintro ⟨picture, hpicture⟩
    simp at hpicture
  unfold halt
  by_cases hon : w.session.logger.on = true
  · simp only [hon, if_true]
    cases haltDump w.session.machine with
    | ok dump => exact ⟨rfl, rfl, hcaption⟩
    | error e => exact ⟨rfl, rfl, not_updates_nil⟩
  · simp only [hon]
    exact ⟨rfl, rfl, hcaption⟩

/-- A tick leaves the machine that its step leaves, whether or not the step completes. -/
theorem cpuTick_display (w : Window) :
    w.cpuTick.window.scale = w.scale ∧
      w.cpuTick.window.session.machine = w.session.machine.step.machine ∧
      ¬ updates w.cpuTick.effects := by
  have hmachine : (w.session.perform (.act .step)).session.machine =
      w.session.machine.step.machine := by
    rw [Session.perform_act]
    rfl
  unfold cpuTick
  cases hresult : (w.session.perform (.act .step)).result with
  | ok answer =>
    simp only [hresult, true_and]
    exact ⟨hmachine, not_updates_nil⟩
  | error error =>
    simp only [hresult]
    cases hd : error.diagnostic? with
    | none => exact ⟨rfl, hmachine, not_updates_nil⟩
    | some d =>
      obtain ⟨hscale, hsession, hquiet⟩ :=
        halt_display { w with session := (w.session.perform (.act .step)).session } d
      exact ⟨hscale, (congrArg Session.machine hsession).trans hmachine, hquiet⟩

theorem unshown_cpuTick (w : Window) : Unshown w w.session.machine.stepped w.cpuTick := by
  obtain ⟨hscale, hmachine, hquiet⟩ := w.cpuTick_display
  rw [Machine.stepped]
  cases hresult : w.session.machine.step.result with
  | ok ins =>
    refine ⟨hscale, hquiet, ?_, ?_⟩
    · intro hpainted
      have hins : ins.paints = true := by simpa [Painted] using hpainted
      rw [screen, hmachine]
      exact Machine.dirty_of_step hresult hins
    · intro hpainted
      have hins : ins.paints = false := by simpa [Painted] using hpainted
      rw [screen, hmachine]
      exact (Machine.frame_of_step hresult).screen hins
  | error fault =>
    refine Unshown.of_eq hscale hquiet ?_
    rw [screen, hmachine, Machine.step_of_fails (Machine.fails_of_step hresult)]
    rfl

theorem unshown_keyPress (w : Window) (symbol : Int) : Unshown w [] (w.keyPress symbol) := by
  unfold keyPress
  by_cases hescape : symbol = w.keyboard.escape
  · rw [if_pos hescape]
    refine .of_eq rfl ?_ rfl
    rintro ⟨picture, hpicture⟩
    simp at hpicture
  · rw [if_neg hescape]
    by_cases htrace : symbol = w.keyboard.trace
    · rw [if_pos htrace]
      exact .of_eq rfl not_updates_nil rfl
    · rw [if_neg htrace]
      cases w.keyboard.keymap.find? symbol <;> exact .of_eq rfl not_updates_nil rfl

theorem unshown_keyRelease (w : Window) (symbol : Int) : Unshown w [] (w.keyRelease symbol) := by
  unfold keyRelease
  cases w.keyboard.keymap.find? symbol <;> exact .of_eq rfl not_updates_nil rfl

/-- Events other than the drawing of the window show nothing. -/
theorem unshown_handle (he : e ≠ .draw) (w : Window) : Unshown w (w.executed e) (w.handle e) := by
  cases e with
  | draw => exact absurd rfl he
  | cpuTick =>
    by_cases hscheduled : w.isScheduled .cpu = true
    · simp only [handle, executed, hscheduled, if_true]
      exact w.unshown_cpuTick
    · simp only [handle, executed, hscheduled]
      exact .of_eq rfl not_updates_nil rfl
  | timerTick =>
    by_cases hscheduled : w.isScheduled .timer = true
    · simp only [handle, executed, hscheduled, if_true]
      exact .of_eq rfl not_updates_nil rfl
    · simp only [handle, executed, hscheduled]
      exact .of_eq rfl not_updates_nil rfl
  | keyPress symbol => exact w.unshown_keyPress symbol
  | keyRelease symbol => exact w.unshown_keyRelease symbol
  | close =>
    refine .of_eq rfl ?_ rfl
    rintro ⟨picture, hpicture⟩
    simp [handle] at hpicture
  | deactivate => exact .of_eq rfl not_updates_nil rfl

/-! ## The drawing of the window -/

/-- On a marked screen, a drawing updates the picture before it shows it, and takes the mark
away. -/
theorem draw_of_dirty (h : w.screen.dirty = true) :
    w.handle .draw =
      { window := { w with image := w.screen.imageAt w.scale }.withMachine
          { w.session.machine with screen := w.screen.markShown }
        effects := [.setImage (w.screen.imageAt w.scale), .clear, .blit 0 0] } :=
  if_pos h

/-- On any other screen, a drawing shows the picture that the host holds. -/
theorem draw_of_clean (h : w.screen.dirty = false) :
    w.handle .draw = { window := w, effects := [.clear, .blit 0 0] } :=
  if_neg (Bool.eq_false_iff.mp h)

/-- The window updates the picture when it draws a screen that is marked. -/
theorem updates_draw_iff (w : Window) :
    updates (w.handle .draw).effects ↔ w.screen.dirty = true := by
  cases hdirty : w.screen.dirty with
  | true => simp [draw_of_dirty hdirty, updates]
  | false => simp [draw_of_clean hdirty, updates]

theorem dirty_draw (w : Window) : (w.handle .draw).window.screen.dirty = false := by
  cases hdirty : w.screen.dirty with
  | true =>
    rw [draw_of_dirty hdirty]
    rfl
  | false =>
    rw [draw_of_clean hdirty]
    exact hdirty

/-! ## The invariant -/

/-- The window is at a scale, and the host's picture is the present one unless the screen is marked
as changed. -/
structure Tracks (n : Nat) (picture : Image) (w : Window) : Prop where
  scale : w.scale = n
  current : w.screen.dirty = false → picture = w.screen.imageAt n

/-- An event that does not draw leaves the picture current, or marks the screen. -/
theorem Tracks.unshown {executed : List Executed} {reaction : Reaction}
    (h : Tracks scale picture w) (hunshown : Unshown w executed reaction) :
    Tracks scale (held picture reaction.effects) reaction.window where
  scale := hunshown.scale.trans h.scale
  current := by
    intro hclean
    have hpainted : ¬ Painted executed := by
      intro hpainted
      simp [hunshown.marked hpainted] at hclean
    rw [hunshown.untouched hpainted] at hclean ⊢
    rw [held_of_not_updates hunshown.quiet]
    exact h.current hclean

theorem Tracks.draw (h : Tracks scale picture w) :
    Tracks scale (held picture (w.handle .draw).effects) (w.handle .draw).window := by
  cases hdirty : w.screen.dirty with
  | true =>
    rw [draw_of_dirty hdirty]
    -- the screen that counts as shown has the picture of the one that was drawn
    exact ⟨h.scale, fun _ => congrArg w.screen.imageAt h.scale⟩
  | false =>
    rw [draw_of_clean hdirty]
    exact h

theorem Tracks.handle (h : Tracks scale picture w) (e : WindowEvent) :
    Tracks scale (held picture (w.handle e).effects) (w.handle e).window := by
  by_cases he : e = .draw
  · subst he
    exact h.draw
  · exact h.unshown (unshown_handle he w)

theorem Tracks.after (h : Tracks scale picture w) (events : List WindowEvent) :
    Tracks scale (held picture (w.effects events)) (w.after events) := by
  induction events generalizing w picture with
  | nil => exact h
  | cons e es ih =>
    rw [effects_cons, held_append]
    exact ih (h.handle e)

/-- While the invariant holds, a drawing shows the present picture. -/
theorem Tracks.shown (h : Tracks scale picture w) :
    shown picture (w.handle .draw).effects = [w.screen.imageAt scale] := by
  cases hdirty : w.screen.dirty with
  | true =>
    rw [draw_of_dirty hdirty, h.scale]
    rfl
  | false =>
    rw [draw_of_clean hdirty, ← h.current hdirty]
    rfl

/-! ## The mark -/

/-- Without a drawing in between, the screen is marked in the end if it was before or if an
instruction has written to it. -/
theorem dirty_after_iff (h : .draw ∉ events) (w : Window) :
    (w.after events).screen.dirty = true ↔
      w.screen.dirty = true ∨ Painted (w.history events) := by
  induction events generalizing w with
  | nil => simp [after, history, Painted]
  | cons e es ih =>
    obtain ⟨he, hes⟩ := not_or.mp (List.mem_cons.not.mp h)
    have hunshown := unshown_handle (Ne.symm he) w
    have hstep : (w.handle e).window.screen.dirty = true ↔
        w.screen.dirty = true ∨ Painted (w.executed e) := by
      by_cases hpainted : Painted (w.executed e)
      · simp [hunshown.marked hpainted, hpainted]
      · simp [hunshown.untouched hpainted, hpainted]
    calc
      ((w.handle e).window.after es).screen.dirty = true
        ↔ (w.handle e).window.screen.dirty = true ∨
            Painted ((w.handle e).window.history es) := ih hes _
      _ ↔ w.screen.dirty = true ∨ Painted (w.history (e :: es)) := by
        rw [hstep, or_assoc, history, painted_append]

/-- A drawing updates the picture if and only if an instruction has written to the screen since the
drawing before. -/
theorem updates_draw_after_draw (h : .draw ∉ events) (w : Window) :
    updates (((w.handle .draw).window.after events).handle .draw).effects ↔
      Painted ((w.handle .draw).window.history events) := by
  rw [updates_draw_iff, dirty_after_iff h, dirty_draw]
  simp

/-! ## Opened windows -/

variable {keyboard : Keyboard} {settings : Settings}

/-- A window opens for each session at rates that are no larger than a floating point number can
be. -/
theorem exists_start (hcpu : settings.cpuHz < rateLimit) (htimer : settings.timerHz < rateLimit)
    (keyboard : Keyboard) (session : Session) :
    ∃ w, start keyboard session settings = .ok w ∧ w.session = session ∧
      w.isScheduled .cpu = true := by
  unfold start interval
  rw [if_pos hcpu, if_pos htimer]
  exact ⟨_, rfl, rfl, rfl⟩

/-- A program that can be loaded opens the window at such rates. -/
theorem exists_opened {rom : List UInt8} {memory : Memory}
    (hload : (Memory.blank Memory.standardSize).load rom = .ok memory)
    (hcpu : settings.cpuHz < rateLimit) (htimer : settings.timerHz < rateLimit) :
    ∃ w, (Launch.run keyboard settings (.ok rom)).result = .opened w ∧
      w.session.machine = Launch.machine memory ∧ w.isScheduled .cpu = true := by
  obtain ⟨w, hstart, hsession, hscheduled⟩ := exists_start hcpu htimer keyboard
    ⟨Launch.machine memory, (Logger.initial false).setLogs settings.verbose⟩
  have hloaded : Rom.load settings.rom (.ok rom) = .ok memory := by
    rw [Rom.load_ok, hload]
    rfl
  exact ⟨w, Launch.result_eq_opened_iff.mpr ⟨memory, hloaded, hstart⟩,
    congrArg Session.machine hsession, hscheduled⟩

theorem of_start {session : Session} (h : start keyboard session settings = .ok w) :
    w.session = session ∧ w.scale = settings.scale ∧ w.keyboard = keyboard := by
  obtain ⟨cpu, timer, -, -, rfl⟩ := start_eq_ok_iff.mp h
  exact ⟨rfl, rfl, rfl⟩

/-- A window opens at the scale of its settings, on a screen that is marked. -/
theorem of_opened {contents : Except ReadError (List UInt8)}
    (h : (Launch.run keyboard settings contents).result = .opened w) :
    w.scale = settings.scale ∧ w.screen.dirty = true := by
  obtain ⟨memory, -, hstart⟩ := Launch.result_eq_opened_iff.mp h
  obtain ⟨hsession, hscale, -⟩ := of_start hstart
  refine ⟨hscale, ?_⟩
  rw [screen, hsession]
  rfl

/-- **What is shown is the screen.**  Whatever happens to an opened window, a drawing shows the
picture of the present screen, and no other.  The first drawing updates the picture; a later one
does so if and only if a clearing or a sprite has been executed since the drawing before. -/
theorem shows_the_screen {contents : Except ReadError (List UInt8)}
    (h : (Launch.run keyboard settings contents).result = .opened w) :
    (∀ events,
      shown (held w.image (w.effects events)) ((w.after events).handle .draw).effects =
        [(w.after events).screen.imageAt settings.scale]) ∧
    (∀ events, .draw ∉ events → updates ((w.after events).handle .draw).effects) ∧
    (∀ before since, .draw ∉ since →
      (updates ((w.after (before ++ .draw :: since)).handle .draw).effects ↔
        Painted ((w.after (before ++ [.draw])).history since))) := by
  obtain ⟨hscale, hdirty⟩ := of_opened h
  have htracks : Tracks settings.scale w.image w :=
    ⟨hscale, fun hclean => by simp [hclean] at hdirty⟩
  refine ⟨?_, ?_, ?_⟩
  · intro events
    exact (htracks.after events).shown
  · intro events hevents
    rw [updates_draw_iff, dirty_after_iff hevents]
    exact .inl hdirty
  · intro before since hsince
    rw [after_append, after_append]
    exact updates_draw_after_draw hsince (w.after before)

/-- Settings for a program that does nothing but clear the screen. -/
def clearing : Settings where
  rom := "clear.ch8"
  amount := Amount.standard
  amount_pos := by
    intro a
    cases a <;> decide
  verbose := false

def clearingRom : List UInt8 :=
  [0x00, 0xE0]

def clearingMemory : Memory :=
  Memory.image Memory.standardSize clearingRom

theorem step_clearingRom {m : Machine}
    (hmemory : m.memory = clearingMemory) (hpc : m.pc = Memory.programStart) :
    m.step.result = .ok (.ofWord 0x00E0) := by
  obtain ⟨hrange, hword⟩ := Machine.word_image (by decide) hmemory hpc
  rw [Machine.step_eq, Machine.fetch_eq, if_pos hrange, hword]
  rfl

/-- Clearing a screen that is dark already updates the picture, and counting the delay down does
not. -/
theorem clearing_shows_the_screen :
    ∃ w, (Launch.run .standard clearing (.ok clearingRom)).result = .opened w ∧
      shown (held w.image (w.effects [.draw, .cpuTick]))
        ((w.after [.draw, .cpuTick]).handle .draw).effects =
          [(w.after [.draw, .cpuTick]).screen.imageAt 10] ∧
      updates (w.handle .draw).effects ∧
      updates ((w.after [.draw, .cpuTick]).handle .draw).effects ∧
      ¬ updates ((w.after [.draw, .timerTick]).handle .draw).effects := by
  have hload : (Memory.blank Memory.standardSize).load clearingRom = .ok clearingMemory :=
    Memory.load_blank (by decide)
  obtain ⟨w, hopened, hmachine, hscheduled⟩ :=
    exists_opened hload (show clearing.cpuHz < rateLimit by decide +kernel)
      (show clearing.timerHz < rateLimit by decide +kernel)
  obtain ⟨hshown, hfirst, hlater⟩ := shows_the_screen hopened
  have hcpu : Painted ((w.after [.draw]).history [.cpuTick]) := by
    obtain ⟨hdrawn, hstill⟩ : (w.after [.draw]).session.machine =
        { w.session.machine with screen := w.screen.markShown } ∧
        (w.after [.draw]).isScheduled .cpu = true := by
      change (w.handle .draw).window.session.machine = _ ∧
        (w.handle .draw).window.isScheduled .cpu = true
      rw [draw_of_dirty (of_opened hopened).2]
      exact ⟨rfl, hscheduled⟩
    rw [hmachine] at hdrawn
    have hstep : (w.after [.draw]).session.machine.step.result = .ok (.ofWord 0x00E0) := by
      rw [hdrawn]
      exact step_clearingRom rfl rfl
    simp only [history, executed, hstill, if_true, Machine.stepped, hstep]
    exact ⟨_, List.mem_cons_self, (by decide : (Instruction.ofWord 0x00E0).paints = true)⟩
  have htimer : ¬ Painted ((w.after [.draw]).history [.timerTick]) := by
    simp [history, executed, Painted]
  exact ⟨w, hopened, hshown _, hfirst [] (by simp), (hlater [] [.cpuTick] (by simp)).mpr hcpu,
    (hlater [] [.timerTick] (by simp)).not.mpr htimer⟩

end Window

end Chip8
