import Chip8.Proofs.Failure
import Chip8.Proofs.Frame

/-!
# Histories

The history of a run lists the instructions that have completed, each with the machine that it was
executed on; a step that fails adds nothing.  Laws that speak of what has happened up to some point
of a run are about its history.

`Machine.history_induction` is the induction over runs: a relation between histories and machines
that holds at the start, is kept by completed steps, by failing steps and by whatever a host does in
between, holds at the end of every run.  Where a host has to restrain itself for a relation to be
kept, `Machine.KeptBySteps.history_induction` takes its actions one by one.
-/

namespace Chip8

/-- An instruction that has completed, and the machine as it was before. -/
structure Executed where
  machine : Machine
  ins : Instruction

namespace Executed

/-- The address that the instruction stood at. -/
def address (e : Executed) : Int :=
  e.machine.pc

/-- What the register that the instruction names first has held. -/
def operand (e : Executed) : UInt8 :=
  e.machine.v.get e.ins.x

def isCall (e : Executed) : Bool :=
  e.ins.mnemonic == some .call

def isReturn (e : Executed) : Bool :=
  e.ins.mnemonic == some .ret

theorem isCall_iff (e : Executed) : e.isCall = true ↔ e.ins.mnemonic = some .call := by
  simp [isCall]

theorem isReturn_iff (e : Executed) : e.isReturn = true ↔ e.ins.mnemonic = some .ret := by
  simp [isReturn]

theorem isReturn_eq_false {e : Executed} (h : e.isCall = true) : e.isReturn = false := by
  rw [isCall_iff] at h
  simp [isReturn, h]

theorem isCall_eq_false {e : Executed} (h : e.isReturn = true) : e.isCall = false := by
  rw [isReturn_iff] at h
  simp [isCall, h]

end Executed

namespace Machine

/-! ## Collecting what completes -/

/-- The instruction that a step completes, if it does. -/
def stepped (m : Machine) : List Executed :=
  match m.step.result with
  | .ok ins => [⟨m, ins⟩]
  | .error _ => []

/-- The instructions that complete in up to `n` steps. -/
def ran (n : Nat) (m : Machine) : List Executed :=
  match n with
  | 0 => []
  | n + 1 =>
    match m.step with
    | ⟨next, .ok ins⟩ => ⟨m, ins⟩ :: ran n next
    | ⟨_, .error _⟩ => []

/-- The instructions that an action completes. -/
def executed (m : Machine) : Action → List Executed
  | .step => m.stepped
  | .run n => m.ran n
  | _ => []

/-- The instructions that a sequence of actions completes, in their order. -/
def history (m : Machine) : List Action → List Executed
  | [] => []
  | action :: actions => m.executed action ++ (m.perform action).machine.history actions

theorem history_append (m : Machine) (reached rest : List Action) :
    m.history (reached ++ rest) = m.history reached ++ (m.after reached).history rest := by
  induction reached generalizing m with
  | nil => rfl
  | cons action reached ih =>
    rw [List.cons_append, history, history, ih, List.append_assoc]
    rfl

/-! ## Induction over runs -/

/-- What is kept along a run, as a relation between the history so far and the machine. -/
structure Kept (P : List Executed → Machine → Prop) : Prop where
  completes : ∀ {past m ins}, P past m → m.step.result = .ok ins →
    P (past ++ [⟨m, ins⟩]) m.step.machine
  fails : ∀ {past m}, P past m → P past m.afterFailure
  host : ∀ {past m next}, P past m → m.Undisturbed next → P past next

variable {P : List Executed → Machine → Prop} {past : List Executed} {m next : Machine}

/-- What steps keep, whether they complete or fail. -/
structure KeptBySteps (P : List Executed → Machine → Prop) : Prop where
  completes : ∀ {past m ins}, P past m → m.step.result = .ok ins →
    P (past ++ [⟨m, ins⟩]) m.step.machine
  fails : ∀ {past m}, P past m → P past m.afterFailure

theorem KeptBySteps.step (hkept : KeptBySteps P) (h : P past m) :
    P (past ++ m.stepped) m.step.machine := by
  rw [stepped]
  cases hresult : m.step.result with
  | ok ins => exact hkept.completes h hresult
  | error fault =>
    rw [step_of_fails (fails_of_step hresult), List.append_nil]
    exact hkept.fails h

theorem KeptBySteps.run (hkept : KeptBySteps P) (h : P past m) (n : Nat) :
    P (past ++ m.ran n) (m.run n).machine := by
  induction n generalizing past m with
  | zero => simpa [ran, Machine.run] using h
  | succ n ih =>
    have hstep := hkept.step h
    rw [stepped] at hstep
    rw [ran, Machine.run]
    rcases hm : m.step with ⟨next, fault | ins⟩
    · simpa [hm] using hstep
    · simp only [hm] at hstep ⊢
      have hrest := ih hstep
      rwa [List.append_assoc] at hrest

/-- An action keeps what steps keep, if it does so where it is neither a step nor a run. -/
theorem KeptBySteps.perform (hkept : KeptBySteps P) {action : Action}
    (hhost : action ≠ .step → (∀ n, action ≠ .run n) → P past (m.perform action).machine)
    (h : P past m) : P (past ++ m.executed action) (m.perform action).machine := by
  cases action with
  | step => exact hkept.step h
  | run n => exact hkept.run h n
  | _ => simpa [executed] using hhost (by simp) (by simp)

/-- Induction over runs in which the host does no more than certain actions. -/
theorem KeptBySteps.history_induction (hkept : KeptBySteps P) {actions : List Action}
    (hhost : ∀ action ∈ actions, action ≠ .step → (∀ n, action ≠ .run n) →
      ∀ {past m}, P past m → P past (m.perform action).machine)
    (h : P past m) : P (past ++ m.history actions) (m.after actions) := by
  induction actions generalizing past m with
  | nil => simpa [history, after] using h
  | cons action actions ih =>
    obtain ⟨hfirst, hlater⟩ := List.forall_mem_cons.mp hhost
    have hrest := ih hlater (hkept.perform (fun hstep hrun => hfirst hstep hrun h) h)
    rwa [List.append_assoc] at hrest

/-- **Induction over runs.** -/
theorem history_induction (hkept : Kept P) (h : P past m) (actions : List Action) :
    P (past ++ m.history actions) (m.after actions) := by
  have hsteps : KeptBySteps P := ⟨hkept.completes, hkept.fails⟩
  refine hsteps.history_induction ?_ h
  intro action _ hstep hrun past m h
  obtain rfl | ⟨n, rfl⟩ | hsame := m.perform_cases action
  · exact absurd rfl hstep
  · exact absurd rfl (hrun n)
  · exact hkept.host h hsame

/-! ## The size of the memory -/

theorem Effect.size {word : Nat} (h : Effect m word next) :
    next.memory.size = m.memory.size := by
  cases h with
  | storeDigits x memory range size bytes => exact size
  | _ => rfl

theorem size_step (m : Machine) : m.step.machine.memory.size = m.memory.size := by
  cases hresult : m.step.result with
  | ok ins =>
    obtain ⟨-, -, heffect⟩ := effect_of_step hresult
    exact heffect.size
  | error fault =>
    rw [step_of_fails (fails_of_step hresult)]
    rfl

theorem size_run (n : Nat) (m : Machine) : (m.run n).machine.memory.size = m.memory.size := by
  induction n generalizing m with
  | zero => rfl
  | succ n ih =>
    have hstep := m.size_step
    rw [run]
    rcases hm : m.step with ⟨next, fault | ins⟩
    · rwa [hm] at hstep
    · rw [hm] at hstep
      exact (ih next).trans hstep

/-- No action changes the size of the memory. -/
theorem size_perform (m : Machine) (action : Action) :
    (m.perform action).machine.memory.size = m.memory.size := by
  rcases m.perform_cases action with rfl | ⟨n, rfl⟩ | hsame
  · exact m.size_step
  · exact m.size_run n
  · exact hsame.memory

theorem size_after (m : Machine) (actions : List Action) :
    (m.after actions).memory.size = m.memory.size := by
  induction actions generalizing m with
  | nil => rfl
  | cons action actions ih => exact (ih _).trans (m.size_perform action)

end Machine

end Chip8
