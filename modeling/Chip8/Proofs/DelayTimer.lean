import Chip8.Proofs.History
import Mathlib.Data.List.Induction

/-!
# The delay timer

Two things happen to the delay timer: an instruction writes a register to it, and a tick counts it
down until it has run out.  So at each point of a run it holds what has been written latest, less
the number of ticks since then, and zero if there have been more (`Machine.delay_law`).  How many
instructions have run in between does not enter, nor which of them have failed, nor anything else
that a host does.

What is written and how often the timer is ticked is read off the events of a run
(`Machine.timerEvents`), which list completed instructions and ticks in their order.
-/

namespace Chip8

/-- What may concern the timer: an instruction that has completed, or a tick. -/
inductive TimerEvent where
  | completed (e : Executed)
  | ticked

namespace TimerEvent

/-- The value that an event writes to the timer, if it writes one. -/
def written? : TimerEvent → Option UInt8
  | completed e => if e.ins.mnemonic = some .ldDelay then some e.operand else none
  | ticked => none

def isTick : TimerEvent → Bool
  | completed _ => false
  | ticked => true

/-- The value that has been written latest, zero if none has. -/
def latest (past : List TimerEvent) : Nat :=
  ((past.reverse.findSome? written?).getD 0).toNat

/-- The number of ticks after the latest write, or all of them if there is none. -/
def ticksSince (past : List TimerEvent) : Nat :=
  (past.reverse.takeWhile fun e => e.written?.isNone).countP isTick

theorem latest_concat (past : List TimerEvent) (e : TimerEvent) :
    latest (past ++ [e]) = (e.written?.map UInt8.toNat).getD (latest past) := by
  rw [latest, List.reverse_concat, List.findSome?_cons]
  cases e.written? <;> rfl

theorem ticksSince_concat (past : List TimerEvent) (e : TimerEvent) :
    ticksSince (past ++ [e]) =
      if e.written?.isNone then ticksSince past + (if e.isTick then 1 else 0) else 0 := by
  rw [ticksSince, List.reverse_concat, List.takeWhile_cons]
  split
  · rw [List.countP_cons]
    rfl
  · rfl

end TimerEvent

namespace Machine

open TimerEvent

variable {m : Machine} {ins : Instruction} {past : List TimerEvent}

/-! ## Events of a run -/

/-- The timer events of an action. -/
def timed (m : Machine) : Action → List TimerEvent
  | .tick => [.ticked]
  | action => (m.executed action).map .completed

/-- The timer events of a sequence of actions, in their order. -/
def timerEvents (m : Machine) : List Action → List TimerEvent
  | [] => []
  | action :: actions => m.timed action ++ (m.perform action).machine.timerEvents actions

/-! ## The law -/

/-- The timer holds what has been written latest, less the ticks since. -/
def DelayIs (past : List TimerEvent) (m : Machine) : Prop :=
  m.delay.toNat = latest past - ticksSince past

theorem delayIs_start (memory : Memory) (screen : Screen) : DelayIs [] (start memory screen) :=
  rfl

theorem DelayIs.of_delay_eq {next : Machine} (h : DelayIs past m) (hsame : next.delay = m.delay) :
    DelayIs past next := by
  rw [DelayIs, hsame]
  exact h

theorem toNat_delay_tick (m : Machine) : m.tick.delay.toNat = m.delay.toNat - 1 := by
  by_cases hzero : m.delay = 0
  · simp [tick, hzero]
  · have hpos : m.delay.toNat ≠ 0 := fun h => hzero (UInt8.toNat_inj.mp h)
    have hle : (1 : UInt8) ≤ m.delay := by
      rw [UInt8.le_iff_toNat_le]
      exact Nat.one_le_iff_ne_zero.mpr hpos
    rw [tick, if_neg hzero, UInt8.toNat_sub_of_le _ _ hle]
    rfl

theorem DelayIs.tick (h : DelayIs past m) : DelayIs (past ++ [.ticked]) m.tick := by
  rw [DelayIs] at h ⊢
  rw [toNat_delay_tick, h, latest_concat, ticksSince_concat]
  exact Nat.sub_sub _ _ _

/-- The instruction that sets the timer writes its register to it. -/
theorem delay_of_step (hok : m.step.result = .ok ins) (hset : ins.mnemonic = some .ldDelay) :
    m.step.machine.delay = m.v.get ins.x := by
  obtain ⟨-, next, hexec, hmachine⟩ := execute_of_step hok
  rw [execute, Exec.run_get_bind, hset] at hexec
  cases hexec
  rw [hmachine]
  rfl

theorem DelayIs.completes (h : DelayIs past m) (hok : m.step.result = .ok ins) :
    DelayIs (past ++ [.completed ⟨m, ins⟩]) m.step.machine := by
  rw [DelayIs, latest_concat, ticksSince_concat, written?]
  by_cases hset : ins.mnemonic = some .ldDelay
  · rw [if_pos hset, delay_of_step hok hset]
    simp [Executed.operand]
  · rw [if_neg hset, (frame_of_step hok).delay hset]
    simpa [DelayIs, isTick] using h

/-! ## Runs -/

/-- Each completed instruction is an event, and a failing step leaves the timer alone. -/
theorem DelayIs.keptBySteps (past : List TimerEvent) :
    KeptBySteps fun done m => DelayIs (past ++ done.map .completed) m where
  completes := by
    intro done m ins h hok
    rw [List.map_append, ← List.append_assoc]
    exact h.completes hok
  fails := by
    intro done m h
    exact h.of_delay_eq rfl

theorem timed_of_ne {action : Action} (h : action ≠ .tick) :
    m.timed action = (m.executed action).map .completed := by
  cases action with
  | tick => exact absurd rfl h
  | _ => rfl

theorem DelayIs.perform (h : DelayIs past m) (action : Action) :
    DelayIs (past ++ m.timed action) (m.perform action).machine := by
  by_cases htick : action = .tick
  · rw [htick]
    exact h.tick
  · have hhost : action ≠ .step → (∀ n, action ≠ .run n) →
        DelayIs (past ++ ([] : List Executed).map .completed) (m.perform action).machine := by
      intro hstep hrun
      rw [List.map_nil, List.append_nil]
      exact h.of_delay_eq ((m.hostFrame_of_perform hstep hrun).delay htick)
    have hstart : DelayIs (past ++ ([] : List Executed).map .completed) m := by
      rw [List.map_nil, List.append_nil]
      exact h
    have hperform := (DelayIs.keptBySteps past).perform hhost hstart
    rwa [List.nil_append, ← timed_of_ne htick] at hperform

theorem DelayIs.after (h : DelayIs past m) (actions : List Action) :
    DelayIs (past ++ m.timerEvents actions) (m.after actions) := by
  induction actions generalizing past m with
  | nil => simpa [timerEvents, Machine.after] using h
  | cons action actions ih =>
    have hrest := ih (h.perform action)
    rwa [List.append_assoc] at hrest

/-- An instruction that reads the timer puts its value into the register that it names. -/
theorem get_of_step (hok : m.step.result = .ok ins) (hread : ins.mnemonic = some .ldFromDelay) :
    m.step.machine.v.get ins.x = m.delay := by
  obtain ⟨-, next, hexec, hmachine⟩ := execute_of_step hok
  rw [execute, Exec.run_get_bind, hread] at hexec
  cases hexec
  rw [hmachine]
  exact (get_setV m.advance ins.x ins.x m.delay).trans (if_pos rfl)

/-- The law of the timer at one point of a run, whose events are `past`. -/
structure DelayLaw (past : List TimerEvent) (m : Machine) : Prop where
  holds : (m.delay.toNat : Int) = max 0 (latest past - ticksSince past)
  /-- An instruction that reads the timer reads this value. -/
  reads : ∀ ins, m.step.result = .ok ins → ins.mnemonic = some .ldFromDelay →
    ((m.step.machine.v.get ins.x).toNat : Int) = max 0 (latest past - ticksSince past)

/-- **The delay timer counts ticks.**  After any actions on a fresh machine, the timer holds the
value that an instruction has written to it latest, less the number of ticks since then, or zero if
there have been more; and that is what an instruction reads that reads it next. -/
theorem delay_law (memory : Memory) (screen : Screen) (actions : List Action) :
    DelayLaw ((start memory screen).timerEvents actions)
      ((start memory screen).after actions) := by
  have h : DelayIs ((start memory screen).timerEvents actions)
      ((start memory screen).after actions) := (delayIs_start memory screen).after actions
  have hholds : (((start memory screen).after actions).delay.toNat : Int) =
      max 0 (latest ((start memory screen).timerEvents actions) -
        ticksSince ((start memory screen).timerEvents actions)) := by
    rw [DelayIs] at h
    omega
  refine ⟨hholds, ?_⟩
  intro ins hok hread
  rw [get_of_step hok hread]
  exact hholds

end Machine

end Chip8
