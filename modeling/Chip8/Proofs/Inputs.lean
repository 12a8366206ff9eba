import Chip8.Proofs.History
import Mathlib.Data.List.Forall2

/-!
# What inputs reach

A program has two inputs: the delay timer, which its host ticks, and the keys, which its host
presses and releases.  It sees them through two instructions, one that reads the timer into a
register and one that skips the next instruction unless a key is down.  There is no other way: two
runs of a program in which these two instructions find the same are the same run, however their
hosts have placed their ticks and keys between the steps.

Two such runs go through machines that agree on all but the inputs (`Machine.SameButInputs`).  What
has to be shown of an instruction is that it takes two machines that agree to two that agree, and
fails on both or on none (`Machine.sameOutcome_execute`).

The main result is `Machine.inputs_reach_only_readers`.
-/

namespace Chip8

/-- Whether the action concerns only the inputs of a program. -/
def Action.isInput : Action → Bool
  | .tick | .press _ | .release _ | .isDown _ | .resetKeys => true
  | _ => false

theorem Action.quiet_of_isInput {action : Action} (h : action.isInput = true) :
    action.fillsMemory = false ∧ action.paints = false := by
  cases action with
  | step | run | load | write | draw | clearScreen => cases h
  | tick | press | release | isDown | resetKeys => exact ⟨rfl, rfl⟩

namespace Machine

variable {m m' : Machine} {ins : Instruction} {actions others : List Action}

/-! ## Machines with different inputs -/

/-- Two machines that agree on all but the delay and the keys. -/
structure SameButInputs (m m' : Machine) : Prop where
  memory : m'.memory = m.memory
  screen : m'.screen = m.screen
  v : m'.v = m.v
  i : m'.i = m.i
  pc : m'.pc = m.pc
  currentPc : m'.currentPc = m.currentPc
  stack : m'.stack = m.stack
  cycles : m'.cycles = m.cycles

namespace SameButInputs

theorem refl (m : Machine) : m.SameButInputs m :=
  ⟨rfl, rfl, rfl, rfl, rfl, rfl, rfl, rfl⟩

theorem symm (h : m.SameButInputs m') : m'.SameButInputs m :=
  ⟨h.memory.symm, h.screen.symm, h.v.symm, h.i.symm, h.pc.symm, h.currentPc.symm, h.stack.symm,
    h.cycles.symm⟩

theorem trans {last : Machine} (h : m.SameButInputs m') (h' : m'.SameButInputs last) :
    m.SameButInputs last :=
  ⟨h'.memory.trans h.memory, h'.screen.trans h.screen, h'.v.trans h.v, h'.i.trans h.i,
    h'.pc.trans h.pc, h'.currentPc.trans h.currentPc, h'.stack.trans h.stack,
    h'.cycles.trans h.cycles⟩

end SameButInputs

/-- The machine with other inputs. -/
def withInputs (m : Machine) (delay : UInt8) (keypad : Keypad) : Machine :=
  { m with
    delay := delay
    keypad := keypad }

theorem same_withInputs (m : Machine) (delay : UInt8) (keypad : Keypad) :
    m.SameButInputs (m.withInputs delay keypad) :=
  ⟨rfl, rfl, rfl, rfl, rfl, rfl, rfl, rfl⟩

@[simp] theorem stack_withInputs (m : Machine) (delay : UInt8) (keypad : Keypad) :
    (m.withInputs delay keypad).stack = m.stack :=
  rfl

@[simp] theorem pc_withInputs (m : Machine) (delay : UInt8) (keypad : Keypad) :
    (m.withInputs delay keypad).pc = m.pc :=
  rfl

theorem SameButInputs.exists_eq (h : m.SameButInputs m') :
    ∃ delay keypad, m' = m.withInputs delay keypad := by
  cases m
  cases m'
  obtain ⟨rfl, rfl, rfl, rfl, rfl, rfl, rfl, rfl⟩ := h
  exact ⟨_, _, rfl⟩

theorem SameButInputs.fetch_eq (h : m.SameButInputs m') : m'.fetch = m.fetch := by
  rw [fetch, fetch, h.memory, h.pc]

/-- Inputs change nothing else. -/
theorem same_perform (m : Machine) {action : Action} (hinput : action.isInput = true) :
    m.SameButInputs (m.perform action).machine := by
  obtain ⟨hfills, hpaints⟩ := Action.quiet_of_isInput hinput
  obtain rfl | ⟨n, rfl⟩ | hsame := m.perform_cases action
  · cases hinput
  · cases hinput
  · have hstep : action ≠ .step := by
      rintro rfl
      cases hinput
    have hrun : ∀ n, action ≠ .run n := by
      rintro n rfl
      cases hinput
    have hframe := m.hostFrame_of_perform hstep hrun
    exact { hsame with
      memory := hframe.memory hfills
      screen := hframe.screen hpaints }

/-! ## One instruction -/

/-- What an instruction reads of the inputs is the same on two machines. -/
structure ReadsSame (ins : Instruction) (m m' : Machine) : Prop where
  delay : ins.mnemonic = some .ldFromDelay → m'.delay = m.delay
  key : ins.mnemonic = some .sknp → ∀ key : Fin 16, (m.v.get ins.x).toNat = key →
    m'.keypad.holds key = m.keypad.holds key

/-- An operation has done the same on two machines, apart from the inputs. -/
inductive SameOutcome : EStateM.Result Fault Machine Unit → EStateM.Result Fault Machine Unit → Prop
  | ok {m m' : Machine} (h : m.SameButInputs m') : SameOutcome (.ok () m) (.ok () m')
  | error {m m' : Machine} (fault : Fault) (h : m.SameButInputs m') :
      SameOutcome (.error fault m) (.error fault m')

/-- An operation that makes one check. -/
theorem SameOutcome.check {condition : Prop} [Decidable condition] {fault : Fault}
    {done done' : Machine} (hok : done.SameButInputs done') (herror : m.SameButInputs m') :
    SameOutcome (if condition then .ok () done else .error fault m)
      (if condition then .ok () done' else .error fault m') := by
  split
  · exact .ok hok
  · exact .error fault herror

variable {delay : UInt8} {keypad : Keypad}

theorem sameOutcome_returnFrom (word : UInt16) :
    SameOutcome ((returnFrom word).run m) ((returnFrom word).run (m.withInputs delay keypad)) := by
  rw [run_returnFrom, run_returnFrom, stack_withInputs]
  cases m.stack.pop? with
  | none => exact .error _ (m.same_withInputs delay keypad)
  | some top => exact .ok (same_withInputs _ delay keypad)

theorem sameOutcome_callTo (word : UInt16) (address : Fin 4096) :
    SameOutcome ((callTo word address).run m)
      ((callTo word address).run (m.withInputs delay keypad)) := by
  rw [run_callTo, run_callTo, stack_withInputs, pc_withInputs]
  cases m.stack.push? (UInt16.ofInt m.pc) with
  | none => exact .error _ (m.same_withInputs delay keypad)
  | some stack => exact .check (same_withInputs _ delay keypad) (m.same_withInputs delay keypad)

theorem sameOutcome_skipIf (condition : Bool) :
    SameOutcome ((skipIf condition).run m)
      ((skipIf condition).run (m.withInputs delay keypad)) := by
  rw [run_skipIf, run_skipIf]
  cases condition <;> exact .ok (same_withInputs _ delay keypad)

/-- The skip that looks at a key does the same where the key is the same. -/
theorem sameOutcome_skipUnlessDown (word : UInt16) {x : Fin 16}
    (hkey : ∀ key : Fin 16, (m.v.get x).toNat = key → keypad.holds key = m.keypad.holds key) :
    SameOutcome ((skipUnlessDown word x).run m)
      ((skipUnlessDown word x).run (m.withInputs delay keypad)) := by
  rw [run_skipUnlessDown, run_skipUnlessDown]
  by_cases hlt : (m.v.get x).toNat < 16
  · have hlt' : ((m.withInputs delay keypad).v.get x).toNat < 16 := hlt
    rw [dif_pos hlt, dif_pos hlt']
    have hsame : (m.withInputs delay keypad).keypad.holds ⟨_, hlt'⟩ = m.keypad.holds ⟨_, hlt⟩ :=
      hkey ⟨_, hlt⟩ rfl
    rw [hsame]
    split <;> exact .ok (same_withInputs _ delay keypad)
  · have hge : ¬ ((m.withInputs delay keypad).v.get x).toNat < 16 := hlt
    rw [dif_neg hlt, dif_neg hge]
    exact .error _ (m.same_withInputs delay keypad)

/-- An instruction that reads the same does the same. -/
theorem sameOutcome_execute (h : m.SameButInputs m') (hreads : ReadsSame ins m m') :
    SameOutcome ((execute ins).run m) ((execute ins).run m') := by
  obtain ⟨delay, keypad, rfl⟩ := h.exists_eq
  rw [execute, Exec.run_get_bind, Exec.run_get_bind]
  cases hk : ins.mnemonic with
  | none => exact .error _ h
  | some mnemonic =>
    cases mnemonic with
    | ret => exact sameOutcome_returnFrom ins.opcode
    | call => exact sameOutcome_callTo ins.opcode ins.nnn
    | seByte | sneByte | seReg | sneReg => exact sameOutcome_skipIf _
    | sknp => exact sameOutcome_skipUnlessDown ins.opcode (hreads.key hk)
    | drw =>
      simp only [run_drawSprite]
      exact .check (same_withInputs _ delay keypad) h
    | ldDigits =>
      simp only [run_storeDigits]
      exact .check (same_withInputs _ delay keypad) h
    | load =>
      simp only [run_loadRegisters]
      exact .check (same_withInputs _ delay keypad) h
    | ldFromDelay =>
      obtain rfl : delay = m.delay := hreads.delay hk
      exact .ok (same_withInputs _ _ keypad)
    | ldDelay =>
      -- From here on the delays agree too, which is more than is asked.
      exact .ok (same_withInputs _ _ keypad)
    | cls | jp | ldByte | addByte | ldReg | ldI | addI | ldGlyph =>
      exact .ok (same_withInputs _ delay keypad)
    | or | and | xor | addReg | sub | shr | subn | shl | jpV0 | rnd | skp | waitKey | ldSound
    | store => exact .error _ h

/-! ## One step -/

/-- An instruction that is refused has read nothing of the inputs. -/
theorem Refuses.readsSame {fault : Fault} (h : m.Refuses ins fault) : ReadsSame ins m m' := by
  cases h with
  | key hk beyond =>
    constructor
    · simp [hk]
    · -- The register names no key, so there is none to look at.
      intro _ key hkey
      omega
  | unsupportedOpcode mnemonic hk unsupported =>
    have hne : ∀ reader : Mnemonic, reader.supported = true → ins.mnemonic ≠ some reader := by
      intro reader hreader hread
      rw [hk] at hread
      cases hread
      rw [unsupported] at hreader
      cases hreader
    exact ⟨fun h => absurd h (hne _ rfl), fun h => absurd h (hne _ rfl)⟩
  | unknownOpcode hk | stackUnderflow hk | stackOverflow hk | returnAddress hk | sprite hk
  | digits hk | registers hk => constructor <;> simp [hk]

/-- Whether a step reads the same of the inputs of two machines, if it completes. -/
def StepReadsSame (m m' : Machine) : Prop :=
  ∀ ins, m.step.result = .ok ins → ReadsSame ins m m'

theorem StepReadsSame.of_fetch (h : StepReadsSame m m') (hfetch : m.fetch = .ok ins) :
    ReadsSame ins m m' := by
  cases hresult : m.step.result with
  | ok done =>
    obtain ⟨hdone, -⟩ := execute_of_step hresult
    rw [hdone] at hfetch
    cases hfetch
    exact h ins hresult
  | error fault =>
    obtain ⟨refused, hrefused, hrefuses⟩ | ⟨access, haccess, -⟩ :=
      fails_iff.mp (fails_of_step hresult)
    · rw [hrefused] at hfetch
      cases hfetch
      exact hrefuses.readsSame
    · rw [haccess] at hfetch
      cases hfetch

/-- Two machines whose next steps complete the same instruction or fail for the same reason, and
leave behind machines that agree on all but the inputs. -/
def SameStep (m m' : Machine) : Prop :=
  m'.step.result = m.step.result ∧ m.step.machine.SameButInputs m'.step.machine

/-- **A step sees no more of the inputs than its instruction reads.** -/
theorem SameButInputs.step (h : m.SameButInputs m') (hreads : StepReadsSame m m') :
    SameStep m m' := by
  rw [SameStep, step_eq m, step_eq m', h.fetch_eq]
  cases hfetch : m.fetch with
  | error access => exact ⟨rfl, { h with currentPc := h.pc }⟩
  | ok ins =>
    have hadvance : m.advance.SameButInputs m'.advance :=
      { h with
        currentPc := h.pc
        pc := congrArg (· + 2) h.pc }
    have hsame := hreads.of_fetch hfetch
    have houtcome := sameOutcome_execute hadvance ⟨hsame.delay, hsame.key⟩
    dsimp only
    generalize (execute ins).run m.advance = outcome at houtcome ⊢
    generalize (execute ins).run m'.advance = outcome' at houtcome ⊢
    cases houtcome with
    | ok hnext => exact ⟨rfl, { hnext with cycles := congrArg (· + 1) hnext.cycles }⟩
    | error fault hnext => exact ⟨rfl, hnext⟩

/-! ## Runs -/

/-- The machines on which the steps of a sequence of actions work. -/
def beforeSteps (m : Machine) : List Action → List Machine
  | [] => []
  | .step :: actions => m :: m.step.machine.beforeSteps actions
  | action :: actions => (m.perform action).machine.beforeSteps actions

theorem beforeSteps_cons_input {action : Action} (hinput : action.isInput = true)
    (actions : List Action) :
    m.beforeSteps (action :: actions) = (m.perform action).machine.beforeSteps actions := by
  cases action with
  | step => cases hinput
  | _ => rfl

/-- A run as its steps: before the first one, between two and after the last one, only inputs
change. -/
inductive StepsAlong : Machine → List Machine → Machine → Prop
  | done {m last : Machine} (h : m.SameButInputs last) : StepsAlong m [] last
  | step {m before last : Machine} {later : List Machine} (h : m.SameButInputs before)
      (rest : StepsAlong before.step.machine later last) : StepsAlong m (before :: later) last

variable {last last' : Machine} {before before' : List Machine}

theorem StepsAlong.of_same (h : StepsAlong m' before last) (hsame : m.SameButInputs m') :
    StepsAlong m before last := by
  cases h with
  | done hlast => exact .done (hsame.trans hlast)
  | step hfirst rest => exact .step (hsame.trans hfirst) rest

/-- Whether a host does no more than to step and to change inputs. -/
def OnlyStepsAndInputs (actions : List Action) : Prop :=
  ∀ action ∈ actions, action = .step ∨ action.isInput = true

instance (actions : List Action) : Decidable (OnlyStepsAndInputs actions) :=
  inferInstanceAs (Decidable (∀ action ∈ actions, action = .step ∨ action.isInput = true))

theorem OnlyStepsAndInputs.stepsAlong (h : OnlyStepsAndInputs actions) (m : Machine) :
    StepsAlong m (m.beforeSteps actions) (m.after actions) := by
  induction actions generalizing m with
  | nil => exact .done (.refl m)
  | cons action actions ih =>
    obtain ⟨haction, hrest⟩ := List.forall_mem_cons.mp h
    obtain rfl | hinput := haction
    · exact .step (.refl m) (ih hrest m.step.machine)
    · rw [beforeSteps_cons_input hinput]
      exact (ih hrest _).of_same (m.same_perform hinput)

/-- Two runs whose steps read the same stay in lockstep. -/
theorem StepsAlong.lockstep (hrun : StepsAlong m before last) (hrun' : StepsAlong m' before' last')
    (h : m.SameButInputs m') (hreads : List.Forall₂ StepReadsSame before before') :
    List.Forall₂ SameStep before before' ∧ last.SameButInputs last' := by
  induction hreads generalizing m m' with
  | nil =>
    obtain ⟨hlast⟩ := hrun
    obtain ⟨hlast'⟩ := hrun'
    exact ⟨.nil, hlast.symm.trans (h.trans hlast')⟩
  | cons hfirst hlater ih =>
    obtain - | ⟨hbefore, hrest⟩ := hrun
    obtain - | ⟨hbefore', hrest'⟩ := hrun'
    -- Up to the two first steps only inputs have changed.
    have hsame := hbefore.symm.trans (h.trans hbefore')
    have hstep := hsame.step hfirst
    obtain ⟨hsteps, hlast⟩ := ih hrest hrest' hstep.2
    exact ⟨.cons hstep hsteps, hlast⟩

theorem length_beforeSteps (m : Machine) (actions : List Action) :
    (m.beforeSteps actions).length = actions.count .step := by
  induction actions generalizing m with
  | nil => rfl
  | cons action actions ih =>
    cases action with
    | step => rw [beforeSteps, List.length_cons, ih, List.count_cons_self]
    | _ =>
      rw [List.count_cons_of_ne (by simp)]
      exact ih _

/-- What a step completes is in the history. -/
theorem mem_history_of_step (hmem : m' ∈ m.beforeSteps actions) (hok : m'.step.result = .ok ins) :
    ⟨m', ins⟩ ∈ m.history actions := by
  induction actions generalizing m with
  | nil => cases hmem
  | cons action actions ih =>
    rw [history, List.mem_append]
    cases action with
    | step =>
      obtain rfl | hlater := List.mem_cons.mp hmem
      · left
        simp [executed, stepped, hok]
      · exact .inr (ih hlater)
    | _ => exact .inr (ih hmem)

/-- Two runs in lockstep: each step of one completes the same instruction as that of the other, or
fails for the same reason, and behind it, as well as at the end, their machines agree on all but
the inputs. -/
structure InLockstep (m : Machine) (actions others : List Action) : Prop where
  steps : List.Forall₂ SameStep (m.beforeSteps actions) (m.beforeSteps others)
  ends : (m.after actions).SameButInputs (m.after others)

theorem inLockstep_of_reads (hactions : OnlyStepsAndInputs actions)
    (hothers : OnlyStepsAndInputs others)
    (hreads : List.Forall₂ StepReadsSame (m.beforeSteps actions) (m.beforeSteps others)) :
    m.InLockstep actions others := by
  obtain ⟨hsteps, hends⟩ :=
    (hactions.stepsAlong m).lockstep (hothers.stepsAlong m) (.refl m) hreads
  exact ⟨hsteps, hends⟩

/-- A step that completes an instruction which reads no input reads the same as any other. -/
theorem stepReadsSame_of_history
    (hnone : ∀ e ∈ m.history actions, e.ins.mnemonic ≠ some .ldFromDelay ∧
      e.ins.mnemonic ≠ some .sknp)
    (hsteps : actions.count .step = others.count .step) :
    List.Forall₂ StepReadsSame (m.beforeSteps actions) (m.beforeSteps others) := by
  rw [List.forall₂_iff_zip, length_beforeSteps, length_beforeSteps]
  refine ⟨hsteps, ?_⟩
  intro p q hpair ins hok
  obtain ⟨hp, -⟩ := List.of_mem_zip hpair
  obtain ⟨hdelay, hkey⟩ := hnone _ (mem_history_of_step hp hok)
  exact ⟨fun h => absurd h hdelay, fun h => absurd h hkey⟩

/-- **The inputs reach a program only through the instructions that read them.**  Take two runs of
one machine with as many steps, between which the hosts tick the timer and change keys as they like.
If each step of the first reads the same of the inputs as that of the second, then both runs go
through the same program in lockstep.  In particular a run that never reads an input is in lockstep
with all others. -/
theorem inputs_reach_only_readers (hactions : OnlyStepsAndInputs actions)
    (hothers : OnlyStepsAndInputs others) (hsteps : actions.count .step = others.count .step) :
    (List.Forall₂ StepReadsSame (m.beforeSteps actions) (m.beforeSteps others) →
      m.InLockstep actions others) ∧
    ((∀ e ∈ m.history actions, e.ins.mnemonic ≠ some .ldFromDelay ∧
        e.ins.mnemonic ≠ some .sknp) →
      m.InLockstep actions others) := by
  refine ⟨inLockstep_of_reads hactions hothers, ?_⟩
  intro hnone
  exact inLockstep_of_reads hactions hothers (stepReadsSame_of_history hnone hsteps)

/-- A machine that is about to set the timer to three and then to read it. -/
def timing : Machine :=
  { start ⟨#[0xF1, 0x15, 0xF2, 0x07]⟩ .standard with
    pc := 0
    v := Vector.replicate 16 3 }

theorem step_timing : timing.step.result = .ok (.ofWord 0xF115) :=
  rfl

/-- A host that ticks once between setting and reading does not change the run by ticking before,
or with its keys. -/
theorem timing_in_lockstep :
    timing.InLockstep [.step, .press 4, .tick, .step] [.tick, .step, .release 4, .tick, .step] ∧
      timing.InLockstep [.step] [.tick, .press 4, .step] := by
  have hset : ∀ m', StepReadsSame timing m' := by
    intro m' ins hok
    rw [step_timing] at hok
    cases hok
    exact ⟨fun h => absurd h (by decide), fun h => absurd h (by decide)⟩
  have hread : StepReadsSame (timing.after [.step, .press 4, .tick])
      (timing.after [.tick, .step, .release 4, .tick]) := by
    intro ins hok
    have hins : (timing.after [.step, .press 4, .tick]).step.result = .ok (.ofWord 0xF207) := rfl
    rw [hins] at hok
    cases hok
    exact ⟨fun _ => rfl, fun h => absurd h (by decide)⟩
  have hlong := @inputs_reach_only_readers timing [.step, .press 4, .tick, .step]
    [.tick, .step, .release 4, .tick, .step] (by decide) (by decide) (by decide)
  have hshort := @inputs_reach_only_readers timing [.step] [.tick, .press 4, .step]
    (by decide) (by decide) (by decide)
  refine ⟨hlong.1 (.cons (hset _) (.cons hread .nil)), hshort.2 ?_⟩
  intro e he
  have hhistory : timing.history [.step] = [⟨timing, .ofWord 0xF115⟩] := rfl
  rw [hhistory, List.mem_singleton] at he
  rw [he]
  decide

end Machine

end Chip8
