import Chip8.Machine.Narration
import Chip8.Proofs.Frame

/-!
# Runs that reply alike

What somebody sees of a run is the reply to each action: its result, or the reason for failing, and
what is written about it (`Machine.replies`).  Two machines may differ in parts that nothing looks
at, and then reply alike.

Laws of that kind compare two machines step by step.  Most instructions use neither the memory nor
the stack, so they do the same whatever these two hold (`Machine.run_execute_withStore`); such a law
need only look at the few others.  Two machines whose instructions end alike take steps that are
alike (`Machine.StepsAlike.of_execute`), with the same trace, because a trace shows no more of a
machine than its register line does.
-/

namespace Chip8

/-- Whether the instruction uses the memory or the stack when it is executed. -/
def Instruction.usesStore (ins : Instruction) : Bool :=
  match ins.mnemonic with
  | some .ret | some .call | some .drw | some .ldDigits | some .load => true
  | _ => false

namespace Machine

variable {m m' next next' : Machine} {ins : Instruction} {R : Machine → Machine → Prop}

/-! ## Replies -/

/-- The replies to some actions, one after the other, on a machine that a logger is told of. -/
def replies (m : Machine) (l : Logger) :
    List Action → List (Except ActionError Answer × List LogEntry)
  | [] => []
  | action :: actions =>
    let (after, entries) := m.narrate l action
    (after.result, entries) :: after.machine.replies l actions

theorem replies_cons (m : Machine) (l : Logger) (action : Action) (actions : List Action) :
    m.replies l (action :: actions) =
      ((m.perform action).result, l.logAll fun _ => m.trace action) ::
        (m.perform action).machine.replies l actions := by
  rw [replies, narrate_eq]

/-! ## Memory and stack -/

/-- The machine with another memory and another stack. -/
def withStore (m : Machine) (memory : Memory) (stack : CallStack) : Machine :=
  { m with
    memory := memory
    stack := stack }

@[simp] theorem v_withStore (m : Machine) (memory : Memory) (stack : CallStack) :
    (m.withStore memory stack).v = m.v :=
  rfl

@[simp] theorem keypad_withStore (m : Machine) (memory : Memory) (stack : CallStack) :
    (m.withStore memory stack).keypad = m.keypad :=
  rfl

/-- The result of an operation, with its machine changed. -/
def onMachine (f : Machine → Machine) :
    EStateM.Result Fault Machine Unit → EStateM.Result Fault Machine Unit
  | .ok u next => .ok u (f next)
  | .error fault next => .error fault (f next)

/-- An instruction that uses neither does the same with another memory and another stack, and leaves
the two as they are. -/
theorem run_execute_withStore (h : ins.usesStore = false) (m : Machine) (memory : Memory)
    (stack : CallStack) :
    (execute ins).run (m.withStore memory stack) =
      onMachine (withStore · memory stack) ((execute ins).run m) := by
  rw [execute, Exec.run_get_bind, Exec.run_get_bind]
  unfold Instruction.usesStore at h
  cases hk : ins.mnemonic with
  | none => rfl
  | some mnemonic =>
    cases mnemonic with
    | ret | call | drw | ldDigits | load => simp [hk] at h
    | seByte | sneByte | seReg | sneReg =>
      simp only [run_skipIf, v_withStore]
      split <;> rfl
    | sknp =>
      rw [run_skipUnlessDown, run_skipUnlessDown, v_withStore, keypad_withStore]
      split
      · rw [onMachine]
        split <;> rfl
      · rfl
    | _ => rfl

/-! ## Instructions that end alike -/

/-- Two operations have both completed, or have failed for the same reason, and have left related
machines behind. -/
inductive EndsAlike (R : Machine → Machine → Prop) :
    EStateM.Result Fault Machine Unit → EStateM.Result Fault Machine Unit → Prop
  | ok {m m' : Machine} (h : R m m') : EndsAlike R (.ok () m) (.ok () m')
  | error {m m' : Machine} (fault : Fault) (h : R m m') :
      EndsAlike R (.error fault m) (.error fault m')

/-- An operation that makes one check. -/
theorem EndsAlike.check {condition : Prop} [Decidable condition] {fault : Fault}
    (hok : condition → R next next') (herror : ¬ condition → R m m') :
    EndsAlike R (if condition then .ok () next else .error fault m)
      (if condition then .ok () next' else .error fault m') := by
  split
  next hcondition => exact .ok (hok hcondition)
  next hcondition => exact .error fault (herror hcondition)

theorem EndsAlike.onMachine {f : Machine → Machine} (h : ∀ next, R next (f next))
    (result : EStateM.Result Fault Machine Unit) :
    EndsAlike R result (onMachine f result) := by
  cases result with
  | ok u next => exact .ok (h next)
  | error fault next => exact .error fault (h next)

/-- Another memory and another stack make no difference to an instruction that uses neither. -/
theorem EndsAlike.withStore (h : ins.usesStore = false) {memory : Memory} {stack : CallStack}
    (hsame : ∀ next : Machine, next.memory = m.memory → next.stack = m.stack →
      R next (next.withStore memory stack)) :
    EndsAlike R ((execute ins).run m) ((execute ins).run (m.withStore memory stack)) := by
  have hself := run_execute_withStore h m m.memory m.stack
  have hother := run_execute_withStore h m memory stack
  have hm : m.withStore m.memory m.stack = m := rfl
  rw [hm] at hself
  cases hrun : (execute ins).run m with
  | ok u next =>
    rw [hrun] at hself hother
    obtain ⟨-, hnext⟩ := EStateM.Result.ok.inj hself
    have hmemory : next.memory = m.memory := by rw [hnext]; rfl
    have hstack : next.stack = m.stack := by rw [hnext]; rfl
    rw [hother]
    exact .ok (hsame next hmemory hstack)
  | error fault next =>
    rw [hrun] at hself hother
    obtain ⟨-, hnext⟩ := EStateM.Result.error.inj hself
    have hmemory : next.memory = m.memory := by rw [hnext]; rfl
    have hstack : next.stack = m.stack := by rw [hnext]; rfl
    rw [hother]
    exact .error fault (hsame next hmemory hstack)

/-! ## Steps that are alike -/

/-- Two machines that a register line does not tell apart. -/
structure LooksSame (m m' : Machine) : Prop where
  v : m'.v = m.v
  i : m'.i = m.i
  pc : m'.pc = m.pc
  depth : m'.stack.depth = m.stack.depth
  delay : m'.delay = m.delay

theorem LooksSame.registers_eq (h : LooksSame m m') : m'.registers = m.registers := by
  rw [registers, registers, h.v, h.i, h.pc, h.depth, h.delay]

theorem LooksSame.remark?_eq (h : LooksSame m m') (ins : Instruction) :
    ins.remark? m' = ins.remark? m := by
  unfold Instruction.remark?
  rw [h.pc, h.v]

/-- Two machines whose next steps come to the same, write the same and leave related machines
behind. -/
structure StepsAlike (R : Machine → Machine → Prop) (m m' : Machine) : Prop where
  result : m'.step.result = m.step.result
  trace : m'.traceStep = m.traceStep
  machines : R m.step.machine m'.step.machine

/-- Two machines take steps that are alike if they execute the same instruction and it ends alike. -/
theorem StepsAlike.of_execute (hfetch : m.fetch = .ok ins) (hfetch' : m'.fetch = .ok ins)
    (hpc : m'.pc = m.pc)
    (hlooks : ∀ {next next' : Machine}, R next next' → LooksSame next next')
    (hcompleted : ∀ {next next' : Machine}, R next next' → R next.completed next'.completed)
    (hends : EndsAlike R ((execute ins).run m.advance) ((execute ins).run m'.advance)) :
    StepsAlike R m m' := by
  generalize hrun : (execute ins).run m.advance = outcome at hends
  generalize hrun' : (execute ins).run m'.advance = outcome' at hends
  cases hends with
  | ok hnext =>
    have hlook := hlooks hnext
    refine ⟨?_, ?_, ?_⟩
    · rw [step_of_execute hfetch hrun, step_of_execute hfetch' hrun']
    · simp only [traceStep, hfetch, hfetch', hrun, hrun', hpc, hlook.registers_eq,
        hlook.remark?_eq]
    · rw [step_of_execute hfetch hrun, step_of_execute hfetch' hrun']
      exact hcompleted hnext
  | error fault hnext =>
    refine ⟨?_, ?_, ?_⟩
    · simp only [step_eq, hfetch, hfetch', hrun, hrun']
    · simp only [traceStep, hfetch, hfetch', hrun, hrun', hpc]
    · simpa only [step_eq, hfetch, hfetch', hrun, hrun'] using hnext

/-- Two machines on which the same fetch fails take steps that are alike. -/
theorem StepsAlike.of_fetch_error {access : OutOfBounds} (hfetch : m.fetch = .error access)
    (hfetch' : m'.fetch = .error access)
    (h : R { m with currentPc := m.pc } { m' with currentPc := m'.pc }) : StepsAlike R m m' := by
  refine ⟨?_, ?_, ?_⟩
  · rw [step_eq, step_eq, hfetch, hfetch']
  · rw [traceStep, traceStep, hfetch, hfetch']
  · rw [step_eq, step_eq, hfetch, hfetch']
    exact h

end Machine

end Chip8
