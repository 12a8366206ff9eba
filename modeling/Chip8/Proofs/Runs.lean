import Chip8.Proofs.History

/-!
# Runs

A run of some cycles is that many steps one after the other, up to the first that fails
(`Machine.run_of_completes`, `Machine.run_of_failsAfter`).  It may be cut in two anywhere: the second
part goes on where the first has ended, and is left out if the first has failed.

A longer sequence of actions is a list of machines on which a step is taken, in runs and between
them (`Machine.attempts`).  From one of them to the next goes a step and then whatever the host does,
which leaves the program undisturbed (`Machine.along_attempts`).  What each step keeps, a whole
sequence keeps, by induction over this list.

The main result is `Machine.run_composes_and_counts`.
-/

namespace Chip8.Machine

variable {m middle last : Machine} {n k : Nat} {fault : Fault} {ins : Instruction}
  {steps later : List Machine}

/-! ## Runs as steps -/

/-- The machine after `n` steps, whether they complete or fail. -/
def afterSteps (n : Nat) (m : Machine) : Machine :=
  match n with
  | 0 => m
  | n + 1 => afterSteps n m.step.machine

/-- Each of the first `n` steps completes. -/
def Completes (n : Nat) (m : Machine) : Prop :=
  ∀ j < n, ∃ ins, (m.afterSteps j).step.result = .ok ins

/-- The first `k` steps complete, and the next one fails. -/
structure FailsAfter (k : Nat) (fault : Fault) (m : Machine) : Prop where
  completes : m.Completes k
  fails : (m.afterSteps k).step.result = .error fault

theorem completes_zero (m : Machine) : m.Completes 0 := by
  intro j hj
  omega

theorem completes_succ_iff :
    m.Completes (n + 1) ↔ (∃ ins, m.step.result = .ok ins) ∧ m.step.machine.Completes n := by
  constructor
  · intro h
    exact ⟨h 0 (by omega), fun j hj => h (j + 1) (by omega)⟩
  · rintro ⟨hfirst, hrest⟩ j hj
    cases j with
    | zero => exact hfirst
    | succ j => exact hrest j (by omega)

theorem failsAfter_zero_iff : m.FailsAfter 0 fault ↔ m.step.result = .error fault :=
  ⟨fun h => h.fails, fun h => ⟨m.completes_zero, h⟩⟩

theorem failsAfter_succ_iff :
    m.FailsAfter (k + 1) fault ↔
      (∃ ins, m.step.result = .ok ins) ∧ m.step.machine.FailsAfter k fault := by
  constructor
  · rintro ⟨hcompletes, hfails⟩
    obtain ⟨hfirst, hrest⟩ := completes_succ_iff.mp hcompletes
    exact ⟨hfirst, hrest, hfails⟩
  · rintro ⟨hfirst, hrest, hfails⟩
    exact ⟨completes_succ_iff.mpr ⟨hfirst, hrest⟩, hfails⟩

/-- A run begins with a step, and goes on if that completes. -/
theorem run_succ_of_ok (h : m.step.result = .ok ins) (n : Nat) :
    m.run (n + 1) = m.step.machine.run n := by
  rw [run]
  rcases hm : m.step with ⟨next, _ | _⟩
  · simp [hm] at h
  · rfl

theorem run_succ_of_error (h : m.step.result = .error fault) (n : Nat) :
    m.run (n + 1) = ⟨m.step.machine, .error fault⟩ := by
  rw [run]
  rcases hm : m.step with ⟨next, _ | _⟩
  · simp only [hm] at h
    cases h
    rfl
  · simp [hm] at h

theorem run_of_completes (h : m.Completes n) : m.run n = ⟨m.afterSteps n, .ok ()⟩ := by
  induction n generalizing m with
  | zero => rfl
  | succ n ih =>
    obtain ⟨⟨ins, hfirst⟩, hrest⟩ := completes_succ_iff.mp h
    rw [run_succ_of_ok hfirst, ih hrest]
    rfl

theorem run_of_failsAfter (h : m.FailsAfter k fault) (hk : k < n) :
    m.run n = ⟨m.afterSteps (k + 1), .error fault⟩ := by
  induction k generalizing m n with
  | zero =>
    obtain ⟨n, rfl⟩ := Nat.exists_eq_add_of_lt hk
    rw [run_succ_of_error (failsAfter_zero_iff.mp h)]
    rfl
  | succ k ih =>
    obtain ⟨n, rfl⟩ := Nat.exists_eq_add_of_lt (show 0 < n by omega)
    obtain ⟨⟨ins, hfirst⟩, hrest⟩ := failsAfter_succ_iff.mp h
    rw [run_succ_of_ok hfirst, ih hrest (by omega)]
    rfl

/-- Either all steps of a run complete, or there is a first one that fails. -/
theorem completes_or_failsAfter (n : Nat) (m : Machine) :
    m.Completes n ∨ ∃ k < n, ∃ fault, m.FailsAfter k fault := by
  induction n generalizing m with
  | zero => exact .inl m.completes_zero
  | succ n ih =>
    cases hresult : m.step.result with
    | error fault => exact .inr ⟨0, by omega, fault, failsAfter_zero_iff.mpr hresult⟩
    | ok ins =>
      rcases ih m.step.machine with hrest | ⟨k, hk, fault, hrest⟩
      · exact .inl (completes_succ_iff.mpr ⟨⟨ins, hresult⟩, hrest⟩)
      · exact .inr ⟨k + 1, by omega, fault, failsAfter_succ_iff.mpr ⟨⟨ins, hresult⟩, hrest⟩⟩

theorem completes_of_run (h : (m.run n).result = .ok ()) : m.Completes n := by
  rcases completes_or_failsAfter n m with hall | ⟨k, hk, fault, hfails⟩
  · exact hall
  · rw [run_of_failsAfter hfails hk] at h
    cases h

theorem run_error_iff :
    (m.run n).result = .error fault ↔ ∃ k < n, m.FailsAfter k fault := by
  constructor
  · intro h
    rcases completes_or_failsAfter n m with hall | ⟨k, hk, first, hfails⟩
    · rw [run_of_completes hall] at h
      cases h
    · rw [run_of_failsAfter hfails hk] at h
      cases h
      exact ⟨k, hk, hfails⟩
  · rintro ⟨k, hk, hfails⟩
    rw [run_of_failsAfter hfails hk]

/-! ## Runs in two parts -/

/-- A run goes on where its first part has ended. -/
theorem run_add_of_ok (h : (m.run n).result = .ok ()) (k : Nat) :
    m.run (n + k) = (m.run n).machine.run k := by
  induction n generalizing m with
  | zero =>
    rw [Nat.zero_add]
    rfl
  | succ n ih =>
    obtain ⟨⟨ins, hfirst⟩, -⟩ := completes_succ_iff.mp (completes_of_run h)
    rw [run_succ_of_ok hfirst] at h ⊢
    rw [Nat.add_right_comm, run_succ_of_ok hfirst]
    exact ih h

/-- A run ends with its first part if that fails. -/
theorem run_add_of_error (h : (m.run n).result = .error fault) (k : Nat) :
    m.run (n + k) = m.run n := by
  obtain ⟨j, hj, hfails⟩ := run_error_iff.mp h
  rw [run_of_failsAfter hfails hj, run_of_failsAfter hfails (by omega)]

/-! ## Steps that are taken -/

/-- The machines on which the steps of a run are taken. -/
def runAttempts (n : Nat) (m : Machine) : List Machine :=
  match n with
  | 0 => []
  | n + 1 =>
    m :: match m.step with
      | ⟨next, .ok _⟩ => runAttempts n next
      | ⟨_, .error _⟩ => []

/-- The machines on which the steps of an action are taken. -/
def attempted (m : Machine) : Action → List Machine
  | .step => [m]
  | .run n => m.runAttempts n
  | _ => []

/-- The machines on which the steps of a sequence of actions are taken, whether the steps complete
or fail. -/
def attempts (m : Machine) : List Action → List Machine
  | [] => []
  | action :: actions => m.attempted action ++ (m.perform action).machine.attempts actions

/-- How a sequence of actions goes from one machine to another: steps are taken on the listed
machines, and before, between and after them a host leaves the program undisturbed. -/
inductive Along : Machine → List Machine → Machine → Prop
  | done {m last : Machine} (h : m.Undisturbed last) : Along m [] last
  | step {m before last : Machine} {later : List Machine} (h : m.Undisturbed before)
      (rest : Along before.step.machine later last) : Along m (before :: later) last

theorem Along.of_undisturbed (h : Along middle steps last) (hsame : m.Undisturbed middle) :
    Along m steps last := by
  cases h with
  | done hlast => exact .done (hsame.trans hlast)
  | step hfirst rest => exact .step (hsame.trans hfirst) rest

theorem Along.append (h : Along m steps middle) (hlater : Along middle later last) :
    Along m (steps ++ later) last := by
  induction h with
  | done hsame => exact hlater.of_undisturbed hsame
  | step hfirst _ ih => exact .step hfirst (ih hlater)

theorem along_run (n : Nat) (m : Machine) : Along m (m.runAttempts n) (m.run n).machine := by
  induction n generalizing m with
  | zero => exact .done (.refl m)
  | succ n ih =>
    rw [run, runAttempts]
    refine .step (.refl m) ?_
    rcases m.step with ⟨next, fault | ins⟩
    · exact .done (.refl next)
    · exact ih next

theorem undisturbed_of_host {action : Action} (hstep : action ≠ .step)
    (hrun : ∀ n, action ≠ .run n) : m.Undisturbed (m.perform action).machine := by
  obtain rfl | ⟨n, rfl⟩ | hsame := m.perform_cases action
  · exact absurd rfl hstep
  · exact absurd rfl (hrun n)
  · exact hsame

theorem along_perform (m : Machine) (action : Action) :
    Along m (m.attempted action) (m.perform action).machine := by
  cases action with
  | step => exact .step (.refl m) (.done (.refl _))
  | run n => exact along_run n m
  | _ => exact .done (undisturbed_of_host (by simp) (by simp))

/-- A sequence of actions goes along the steps that it takes. -/
theorem along_attempts (m : Machine) (actions : List Action) :
    Along m (m.attempts actions) (m.after actions) := by
  induction actions generalizing m with
  | nil => exact .done (.refl m)
  | cons action actions ih => exact (m.along_perform action).append (ih _)

/-- The instructions that complete are those of the steps that complete. -/
theorem ran_eq (n : Nat) (m : Machine) : m.ran n = (m.runAttempts n).flatMap stepped := by
  induction n generalizing m with
  | zero => rfl
  | succ n ih =>
    rw [ran, runAttempts, List.flatMap_cons, stepped]
    rcases m.step with ⟨next, fault | ins⟩
    · rfl
    · exact congrArg _ (ih next)

theorem history_eq (m : Machine) (actions : List Action) :
    m.history actions = (m.attempts actions).flatMap stepped := by
  induction actions generalizing m with
  | nil => rfl
  | cons action actions ih =>
    have hfirst : m.executed action = (m.attempted action).flatMap stepped := by
      cases action with
      | step => exact (List.flatMap_singleton ..).symm
      | run n => exact m.ran_eq n
      | _ => rfl
    rw [history, attempts, List.flatMap_append, hfirst, ih]

/-- An instruction has completed if and only if a step on its machine was taken and did so. -/
theorem mem_history_iff {e : Executed} {actions : List Action} :
    e ∈ m.history actions ↔
      e.machine ∈ m.attempts actions ∧ e.machine.step.result = .ok e.ins := by
  rw [history_eq, List.mem_flatMap]
  constructor
  · rintro ⟨before, hbefore, he⟩
    rw [stepped] at he
    cases hresult : before.step.result with
    | error fault => simp [hresult] at he
    | ok ins =>
      simp only [hresult, List.mem_singleton] at he
      subst he
      exact ⟨hbefore, hresult⟩
  · rintro ⟨hmem, hok⟩
    refine ⟨e.machine, hmem, ?_⟩
    rw [stepped, hok]
    exact List.mem_singleton_self _

/-! ## Counting -/

/-- The number of steps that complete. -/
def completions (steps : List Machine) : Nat :=
  steps.countP fun before => before.step.result.isOk

theorem completions_cons_of_ok (h : m.step.result = .ok ins) (later : List Machine) :
    completions (m :: later) = completions later + 1 := by
  rw [completions, List.countP_cons, h]
  rfl

theorem completions_cons_of_error (h : m.step.result = .error fault) (later : List Machine) :
    completions (m :: later) = completions later := by
  rw [completions, List.countP_cons, h]
  rfl

/-- A step that completes counts one cycle. -/
theorem cycles_of_ok (h : m.step.result = .ok ins) : m.step.machine.cycles = m.cycles + 1 := by
  obtain ⟨-, -, heffect⟩ := effect_of_step h
  exact heffect.currentPc_cycles.2

/-- A step that fails counts none. -/
theorem cycles_of_error (h : m.step.result = .error fault) : m.step.machine.cycles = m.cycles := by
  rw [step_of_fails (fails_of_step h)]
  rfl

theorem cycles_of_completes (h : m.Completes n) : (m.afterSteps n).cycles = m.cycles + n := by
  induction n generalizing m with
  | zero => rfl
  | succ n ih =>
    obtain ⟨⟨ins, hfirst⟩, hrest⟩ := completes_succ_iff.mp h
    rw [afterSteps, ih hrest, cycles_of_ok hfirst]
    omega

theorem afterSteps_succ (n : Nat) (m : Machine) :
    m.afterSteps (n + 1) = (m.afterSteps n).step.machine := by
  induction n generalizing m with
  | zero => rfl
  | succ n ih => exact ih m.step.machine

/-- The step that fails is not counted. -/
theorem cycles_of_failsAfter (h : m.FailsAfter k fault) :
    (m.afterSteps (k + 1)).cycles = m.cycles + k := by
  rw [afterSteps_succ, cycles_of_error h.fails, cycles_of_completes h.completes]

/-- The cycles along some steps count those that complete. -/
theorem Along.cycles_eq (h : Along m steps last) : last.cycles = m.cycles + completions steps := by
  induction h with
  | done hsame => exact hsame.cycles
  | @step m before last later hsame rest ih =>
    rw [ih, ← hsame.cycles]
    cases hresult : before.step.result with
    | ok ins =>
      rw [cycles_of_ok hresult, completions_cons_of_ok hresult]
      omega
    | error fault => rw [cycles_of_error hresult, completions_cons_of_error hresult]

/-- **Runs compose, and cycles count what completes.**  If a run returns, a longer one goes on where
it has ended, and if it fails, a longer one fails in the same way and leaves the same machine.  A run
that returns counts all its cycles.  A run fails if and only if one of its steps is the first to fail,
and then counts those before it.  Over any actions, the cycles grow by the number of the steps that
have completed. -/
theorem run_composes_and_counts (m : Machine) :
    (∀ n k, (m.run n).result = .ok () → m.run (n + k) = (m.run n).machine.run k) ∧
    (∀ n k fault, (m.run n).result = .error fault → m.run (n + k) = m.run n) ∧
    (∀ n, (m.run n).result = .ok () → (m.run n).machine.cycles = m.cycles + n) ∧
    (∀ n fault, (m.run n).result = .error fault ↔ ∃ k < n, m.FailsAfter k fault) ∧
    (∀ n k fault, k < n → m.FailsAfter k fault →
      (m.run n).machine = m.afterSteps (k + 1) ∧ (m.run n).machine.cycles = m.cycles + k) ∧
    ∀ actions, (m.after actions).cycles = m.cycles + completions (m.attempts actions) := by
  refine ⟨?_, ?_, ?_, ?_, ?_, ?_⟩
  · intro n k h
    exact run_add_of_ok h k
  · intro n k fault h
    exact run_add_of_error h k
  · intro n h
    have hall := completes_of_run h
    rw [run_of_completes hall]
    exact cycles_of_completes hall
  · intro n fault
    exact run_error_iff
  · intro n k fault hk h
    rw [run_of_failsAfter h hk]
    exact ⟨rfl, cycles_of_failsAfter h⟩
  · intro actions
    exact (m.along_attempts actions).cycles_eq

/-- A machine that is about to set a register and then to return without a call. -/
def loadThenReturn : Machine :=
  { start ⟨#[0x60, 0x12, 0x00, 0xEE]⟩ .standard with pc := 0 }

/-- The second instruction fails, so a run of any greater length ends there and counts one cycle. -/
theorem loadThenReturn_counts :
    loadThenReturn.FailsAfter 1 (.stackUnderflow 2 0x00EE) ∧
      loadThenReturn.run (2 + 7) = loadThenReturn.run 2 ∧
      (loadThenReturn.run 9).machine.cycles = 1 ∧
      (loadThenReturn.after [.run 9, .tick, .step]).cycles =
        completions (loadThenReturn.attempts [.run 9, .tick, .step]) := by
  obtain ⟨-, hlonger, -, hfails, hcounts, hactions⟩ := run_composes_and_counts loadThenReturn
  have hfirst : loadThenReturn.step.result = .ok (.ofWord 0x6012) := rfl
  have hsecond : loadThenReturn.step.machine.step.result = .error (.stackUnderflow 2 0x00EE) := rfl
  have hstop : loadThenReturn.FailsAfter 1 (.stackUnderflow 2 0x00EE) :=
    failsAfter_succ_iff.mpr ⟨⟨_, hfirst⟩, failsAfter_zero_iff.mpr hsecond⟩
  refine ⟨hstop, hlonger 2 7 _ ((hfails 2 _).mpr ⟨1, by omega, hstop⟩), ?_, ?_⟩
  · exact (hcounts 9 1 _ (by omega) hstop).2
  · exact (hactions _).trans (Nat.zero_add _)

end Chip8.Machine
