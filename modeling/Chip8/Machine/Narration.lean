import Chip8.Logger
import Chip8.Machine.Action

/-!
# Narrated actions

Actions on a machine whose doings are logged.  The logger is told of a step while it happens: of the
instruction once it is fetched, of what some instructions have done once they have done it, and of
the registers at the end.  What has been written stays written if the instruction then fails.

That the telling is all that is added is a theorem and not a matter of how the steps are written
down: a narrated action leaves what a silent one leaves, and writes its trace (`narrate_eq`).
-/

namespace Chip8

/-- A machine at work, and what has been written so far. -/
structure Narration where
  machine : Machine
  entries : List LogEntry

/-- An operation on the machine that writes as it goes. -/
abbrev Narrated (α : Type) := EStateM Fault Narration α

namespace Narrated

variable {α : Type}

/-- Lets the machine work, and writes nothing. -/
def act (x : Exec α) : Narrated α := fun s =>
  match x.run s.machine with
  | .ok a next => .ok a { s with machine := next }
  | .error fault next => .error fault { s with machine := next }

/-- Writes lines about the machine as it is now, if tracing is on. -/
def tell (l : Logger) (lines : Machine → List String) : Narrated Unit :=
  modify fun s => { s with entries := s.entries ++ l.logAll fun _ => lines s.machine }

/-- Fetches and executes the instruction at the program counter, and tells of it. -/
def cycle (l : Logger) : Narrated Instruction := do
  act (modify fun m => { m with currentPc := m.pc })
  let ins ← act do Exec.lift .outOfBounds (← get).fetch
  act (modify fun m => { m with pc := m.pc + 2 })
  tell l fun m => [ins.traceLine m.currentPc]
  act (Machine.execute ins)
  tell l fun m => (ins.remark? m).toList
  act (modify fun m => { m with cycles := m.cycles + 1 })
  tell l fun m => [m.registers]
  return ins

/-- Executes up to `n` instructions, and tells of each. -/
def cycles (l : Logger) : Nat → Narrated Unit
  | 0 => pure ()
  | n + 1 => do
    let _ ← cycle l
    cycles l n

/-- What an operation leaves behind on a given machine, and what it has written. -/
def outcome (x : Narrated α) (m : Machine) : Outcome Fault α × List LogEntry :=
  match x.run ⟨m, []⟩ with
  | .ok a next => (⟨next.machine, .ok a⟩, next.entries)
  | .error fault next => (⟨next.machine, .error fault⟩, next.entries)

end Narrated

namespace Machine

/-- Performs an action, and tells of its steps. -/
def narrate (m : Machine) (l : Logger) : Action → Outcome ActionError Answer × List LogEntry
  | .step =>
    let (after, entries) := (Narrated.cycle l).outcome m
    (⟨after.machine, (after.result.map .executed).mapError .fault⟩, entries)
  | .run n =>
    let (after, entries) := (Narrated.cycles l n).outcome m
    (⟨after.machine, (after.result.map fun _ => .done).mapError .fault⟩, entries)
  | action => (m.perform action, [])

end Machine

/-! ## What telling adds -/

theorem Logger.logAll_append (l : Logger) (first rest : List String) :
    (l.logAll fun _ => first ++ rest) = (l.logAll fun _ => first) ++ l.logAll fun _ => rest := by
  unfold logAll
  split
  · exact List.flatMap_append
  · rfl

theorem Logger.logAll_nil (l : Logger) : (l.logAll fun _ => []) = [] := by
  unfold logAll
  split <;> rfl

namespace Narrated

variable {α β : Type}

theorem run_act_bind (x : Exec α) (f : α → Narrated β) (s : Narration) :
    EStateM.run (act x >>= f) s =
      match x.run s.machine with
      | .ok a next => (f a).run { s with machine := next }
      | .error fault next => .error fault { s with machine := next } := by
  show EStateM.bind (act x) f s = _
  unfold EStateM.bind act
  cases x.run s.machine <;> rfl

theorem run_tell_bind (l : Logger) (lines : Machine → List String) (f : Unit → Narrated β)
    (s : Narration) :
    EStateM.run (tell l lines >>= f) s =
      (f ()).run { s with entries := s.entries ++ l.logAll fun _ => lines s.machine } :=
  rfl

/-- A narrated step leaves what a silent one leaves, and adds its trace to what is written. -/
theorem run_cycle (l : Logger) (m : Machine) (past : List LogEntry) :
    (cycle l).run ⟨m, past⟩ =
      match m.step with
      | ⟨next, .ok ins⟩ => .ok ins ⟨next, past ++ l.logAll fun _ => m.traceStep⟩
      | ⟨next, .error fault⟩ => .error fault ⟨next, past ++ l.logAll fun _ => m.traceStep⟩ := by
  have hfetch : (do Exec.lift .outOfBounds (← get).fetch : Exec Instruction).run
      { m with currentPc := m.pc } =
        (Exec.lift .outOfBounds m.fetch).run { m with currentPc := m.pc } := rfl
  have hadvance : { m with currentPc := m.pc, pc := m.pc + 2 } = m.advance := rfl
  rw [cycle, run_act_bind, Machine.step_eq, Machine.traceStep]
  simp only [EStateM.run_modify, run_act_bind, hfetch]
  cases m.fetch with
  | error access =>
    simp only [Logger.logAll_nil, List.append_nil]
    rfl
  | ok ins =>
    simp only [Exec.run_lift_ok, run_act_bind, run_tell_bind, EStateM.run_modify, hadvance]
    cases (Machine.execute ins).run m.advance with
    | error fault next => rfl
    | ok _ next =>
      -- the registers are the same before and after the cycle is counted
      have hlines : (l.logAll fun _ =>
          ins.traceLine m.pc :: ((ins.remark? next).toList ++ [next.registers])) =
            (l.logAll fun _ => [ins.traceLine m.pc]) ++
              ((l.logAll fun _ => (ins.remark? next).toList) ++
                l.logAll fun _ => [next.registers]) := by
        rw [← Logger.logAll_append, ← Logger.logAll_append]
        rfl
      simp only [hlines, ← List.append_assoc]
      rfl

theorem run_cycles (l : Logger) (n : Nat) (m : Machine) (past : List LogEntry) :
    (cycles l n).run ⟨m, past⟩ =
      match m.run n with
      | ⟨next, .ok done⟩ => .ok done ⟨next, past ++ l.logAll fun _ => m.traceRun n⟩
      | ⟨next, .error fault⟩ => .error fault ⟨next, past ++ l.logAll fun _ => m.traceRun n⟩ := by
  induction n generalizing m past with
  | zero =>
    simp only [Machine.traceRun, Logger.logAll_nil, List.append_nil]
    rfl
  | succ n ih =>
    rw [cycles, EStateM.run_bind, run_cycle, Machine.run, Machine.traceRun]
    rcases m.step with ⟨next, fault | ins⟩
    · simp only [List.append_nil]
    · simp only [ih, Logger.logAll_append, List.append_assoc]

end Narrated

namespace Machine

/-- **Telling changes nothing.**  A narrated action leaves what a silent one leaves, whether it fails
or not, and writes its trace. -/
theorem narrate_eq (m : Machine) (l : Logger) (action : Action) :
    m.narrate l action = (m.perform action, l.logAll fun _ => m.trace action) := by
  cases action with
  | step =>
    rw [narrate, Narrated.outcome, Narrated.run_cycle, perform, trace]
    rcases m.step with ⟨next, fault | ins⟩ <;> rfl
  | run n =>
    rw [narrate, Narrated.outcome, Narrated.run_cycles, perform, trace]
    rcases m.run n with ⟨next, fault | done⟩ <;> rfl
  | _ => simp only [narrate, trace, Logger.logAll_nil]

end Machine

end Chip8
