import Chip8.Proofs.Replies

/-!
# Slots beyond the depth

A return does not clear the slot that it takes its address from, and a call writes over whatever the
next slot holds.  So the slots beyond the depth of the stack are full of what older calls have left
there.  None of it ever shows: a slot is written before it is read again.

Two machines that agree on all but such slots (`Machine.SameButStale`) still do so after any action,
and reply alike (`Machine.sameButStale_perform`).  Calls and returns are the only instructions for
which there is anything to show, and of a stack they see no more than its frames.

The main result is `Machine.stale_slots_are_dead`.
-/

namespace Chip8

/-! ## Stacks -/

namespace CallStack

/-- Two stacks that agree on the slots in use. -/
structure SameInUse (s t : CallStack) : Prop where
  depth : t.depth = s.depth
  slots : ∀ k : Fin capacity, k.val < s.depth → t.slots.get k = s.slots.get k

variable {s t : CallStack}

theorem getElem?_frames (s : CallStack) (k : Fin capacity) :
    s.frames[k.val]? = if k.val < s.depth then some (s.slots.get k) else none := by
  rw [frames, List.getElem?_take]
  split
  · simp [Vector.get]
  · rfl

/-- The slots in use are the frames. -/
theorem sameInUse_iff : s.SameInUse t ↔ t.frames = s.frames := by
  constructor
  · intro h
    apply List.ext_getElem?
    intro k
    by_cases hk : k < capacity
    · have hs := s.getElem?_frames ⟨k, hk⟩
      have ht := t.getElem?_frames ⟨k, hk⟩
      rw [h.depth] at ht
      rw [hs, ht]
      split
      next hin => rw [h.slots ⟨k, hk⟩ hin]
      next => rfl
    · have hs := s.depth_le
      have ht := t.depth_le
      rw [List.getElem?_eq_none (by rw [length_frames]; omega),
        List.getElem?_eq_none (by rw [length_frames]; omega)]
  · intro h
    have hdepth : t.depth = s.depth := by
      rw [← length_frames, ← length_frames, h]
    refine ⟨hdepth, ?_⟩
    intro k hk
    have hs := s.getElem?_frames k
    have ht := t.getElem?_frames k
    rw [h, hs, if_pos hk, if_pos (by omega)] at ht
    exact (Option.some.inj ht).symm

/-- Taking an address off sees no more than the slots in use. -/
theorem SameInUse.pop? (h : s.SameInUse t) :
    (s.pop? = none ∧ t.pop? = none) ∨
      ∃ address s' t', s.pop? = some (address, s') ∧ t.pop? = some (address, t') ∧
        s'.SameInUse t' := by
  cases hs : s.pop? with
  | none =>
    have hempty := s.pop?_eq_none_iff.mp hs
    exact .inl ⟨rfl, t.pop?_eq_none_iff.mpr (h.depth.trans hempty)⟩
  | some top =>
    obtain ⟨address, s'⟩ := top
    cases ht : t.pop? with
    | none =>
      have hempty := t.pop?_eq_none_iff.mp ht
      rw [s.pop?_eq_none_iff.mpr (h.depth.symm.trans hempty)] at hs
      cases hs
    | some top' =>
      obtain ⟨address', t'⟩ := top'
      have hframes := sameInUse_iff.mp h
      rw [frames_pop? hs, frames_pop? ht] at hframes
      obtain ⟨hrest, htop⟩ := List.append_inj' hframes rfl
      obtain rfl : address' = address := by simpa using htop
      exact .inr ⟨address', s', t', rfl, rfl, sameInUse_iff.mpr hrest⟩

/-- Putting an address on writes over the first slot that is not in use. -/
theorem SameInUse.push? (h : s.SameInUse t) (address : UInt16) :
    (s.push? address = none ∧ t.push? address = none) ∨
      ∃ s' t', s.push? address = some s' ∧ t.push? address = some t' ∧ s'.SameInUse t' := by
  cases hs : s.push? address with
  | none =>
    have hfull := (s.push?_eq_none_iff address).mp hs
    exact .inl ⟨rfl, (t.push?_eq_none_iff address).mpr (h.depth.trans hfull)⟩
  | some s' =>
    cases ht : t.push? address with
    | none =>
      have hfull := (t.push?_eq_none_iff address).mp ht
      rw [(s.push?_eq_none_iff address).mpr (h.depth.symm.trans hfull)] at hs
      cases hs
    | some t' =>
      have hframes := sameInUse_iff.mp h
      refine .inr ⟨s', t', rfl, rfl, sameInUse_iff.mpr ?_⟩
      rw [frames_push? hs, frames_push? ht, hframes]

end CallStack

namespace Machine

variable {m m' : Machine} {ins : Instruction}

/-! ## Machines with different stale slots -/

/-- Two machines that agree on all but the slots beyond the depth of the stack. -/
structure SameButStale (m m' : Machine) : Prop where
  memory : m'.memory = m.memory
  screen : m'.screen = m.screen
  keypad : m'.keypad = m.keypad
  v : m'.v = m.v
  i : m'.i = m.i
  pc : m'.pc = m.pc
  currentPc : m'.currentPc = m.currentPc
  stack : m.stack.SameInUse m'.stack
  delay : m'.delay = m.delay
  cycles : m'.cycles = m.cycles

theorem same_withStack {stack : CallStack} (h : m.stack.SameInUse stack) :
    m.SameButStale (m.withStore m.memory stack) :=
  ⟨rfl, rfl, rfl, rfl, rfl, rfl, rfl, h, rfl, rfl⟩

namespace SameButStale

theorem exists_eq (h : m.SameButStale m') :
    ∃ stack, m.stack.SameInUse stack ∧ m' = m.withStore m.memory stack := by
  cases m
  cases m'
  obtain ⟨rfl, rfl, rfl, rfl, rfl, rfl, rfl, hstack, rfl, rfl⟩ := h
  exact ⟨_, hstack, rfl⟩

theorem looksSame (h : m.SameButStale m') : LooksSame m m' :=
  ⟨h.v, h.i, h.pc, h.stack.depth, h.delay⟩

theorem completed (h : m.SameButStale m') : m.completed.SameButStale m'.completed :=
  { h with cycles := congrArg (· + 1) h.cycles }

theorem advance (h : m.SameButStale m') : m.advance.SameButStale m'.advance :=
  { h with
    currentPc := h.pc
    pc := congrArg (· + 2) h.pc }

theorem fetch_eq (h : m.SameButStale m') : m'.fetch = m.fetch := by
  rw [fetch, fetch, h.memory, h.pc]

end SameButStale

/-! ## Steps -/

/-- An instruction ends alike whatever the stale slots hold, and what it leaves in use is alike. -/
theorem endsAlike_execute (h : m.SameButStale m') :
    EndsAlike SameButStale ((execute ins).run m) ((execute ins).run m') := by
  obtain ⟨stack, hstack, rfl⟩ := h.exists_eq
  by_cases hstore : ins.usesStore = false
  · refine EndsAlike.withStore hstore fun next hmemory hnext => ?_
    rw [← hmemory]
    rw [← hnext] at hstack
    exact same_withStack hstack
  · cases hk : ins.mnemonic with
    | none => simp [Instruction.usesStore, hk] at hstore
    | some mnemonic =>
      rw [execute, Exec.run_get_bind, Exec.run_get_bind, hk]
      have hin : (m.withStore m.memory stack).stack = stack := rfl
      cases mnemonic with
      | ret =>
        simp only [run_returnFrom, hin]
        obtain ⟨hs, ht⟩ | ⟨address, s', t', hs, ht, hsame⟩ := hstack.pop?
        · rw [hs, ht]
          exact .error _ h
        · rw [hs, ht]
          exact .ok { h with
            stack := hsame
            pc := rfl }
      | call =>
        have hpc : (m.withStore m.memory stack).pc = m.pc := rfl
        simp only [run_callTo, hin, hpc]
        obtain ⟨hs, ht⟩ | ⟨s', t', hs, ht, hsame⟩ := hstack.push? (UInt16.ofInt m.pc)
        · rw [hs, ht]
          exact .error _ h
        · rw [hs, ht]
          refine .check (fun _ => ?_) (fun _ => h)
          exact { h with
            stack := hsame
            pc := rfl }
      | drw =>
        simp only [run_drawSprite]
        exact .check (fun _ => same_withStack hstack) (fun _ => h)
      | ldDigits =>
        simp only [run_storeDigits]
        exact .check (fun _ => same_withStack hstack) (fun _ => h)
      | load =>
        simp only [run_loadRegisters]
        exact .check (fun _ => same_withStack hstack) (fun _ => h)
      | _ => simp [Instruction.usesStore, hk] at hstore

theorem stepsAlike_of_stale (h : m.SameButStale m') : StepsAlike SameButStale m m' := by
  cases hfetch : m.fetch with
  | error access =>
    exact .of_fetch_error hfetch (h.fetch_eq.trans hfetch) { h with currentPc := h.pc }
  | ok ins =>
    exact .of_execute hfetch (h.fetch_eq.trans hfetch) h.pc SameButStale.looksSame
      SameButStale.completed (endsAlike_execute h.advance)

theorem run_of_stale (h : m.SameButStale m') (n : Nat) :
    (m'.run n).result = (m.run n).result ∧ m'.traceRun n = m.traceRun n ∧
      (m.run n).machine.SameButStale (m'.run n).machine := by
  induction n generalizing m m' with
  | zero => exact ⟨rfl, rfl, h⟩
  | succ n ih =>
    obtain ⟨hresult, htrace, hmachines⟩ := stepsAlike_of_stale h
    rw [run, run, traceRun, traceRun, htrace]
    rcases hm : m.step with ⟨next, fault | ins⟩ <;>
      rcases hm' : m'.step with ⟨next', fault' | ins'⟩ <;>
      simp only [hm, hm', Except.ok.injEq, Except.error.injEq, reduceCtorEq] at hresult hmachines
    · exact ⟨congrArg Except.error hresult, rfl, hmachines⟩
    · obtain ⟨hresults, htraces, hends⟩ := ih hmachines
      simp only [hresults, htraces]
      exact ⟨trivial, trivial, hends⟩

/-! ## Actions -/

/-- No action sees a stale slot: two machines that differ in them reply alike, and differ in no more
behind it. -/
theorem sameButStale_perform (h : m.SameButStale m') (action : Action) :
    (m'.perform action).result = (m.perform action).result ∧ m'.trace action = m.trace action ∧
      (m.perform action).machine.SameButStale (m'.perform action).machine := by
  cases action with
  | step =>
    obtain ⟨hresult, htrace, hmachines⟩ := stepsAlike_of_stale h
    refine ⟨?_, htrace, hmachines⟩
    simp only [perform, hresult]
  | run n =>
    obtain ⟨hresult, htrace, hmachines⟩ := run_of_stale h n
    refine ⟨?_, htrace, hmachines⟩
    simp only [perform, hresult]
  | tick => exact ⟨rfl, rfl, { h with delay := by simp only [perform, tick, h.delay] }⟩
  | press key =>
    simp only [perform, h.keypad]
    cases m.keypad.press key with
    | error e => exact ⟨rfl, rfl, h⟩
    | ok keypad => exact ⟨rfl, rfl, { h with keypad := rfl }⟩
  | release key =>
    simp only [perform, h.keypad]
    cases m.keypad.release key with
    | error e => exact ⟨rfl, rfl, h⟩
    | ok keypad => exact ⟨rfl, rfl, { h with keypad := rfl }⟩
  | isDown key =>
    simp only [perform, h.keypad]
    exact ⟨trivial, rfl, h⟩
  | resetKeys => exact ⟨rfl, rfl, { h with keypad := rfl }⟩
  | load rom =>
    simp only [perform, h.memory]
    cases m.memory.load rom with
    | error e => exact ⟨rfl, rfl, h⟩
    | ok memory => exact ⟨rfl, rfl, { h with memory := rfl }⟩
  | write address values =>
    simp only [perform, h.memory]
    cases m.memory.write address values with
    | error e => exact ⟨rfl, rfl, h⟩
    | ok memory => exact ⟨rfl, rfl, { h with memory := rfl }⟩
  | draw x y sprite =>
    simp only [perform, h.screen]
    cases m.screen.place x y sprite with
    | error e => exact ⟨rfl, rfl, h⟩
    | ok placed => exact ⟨rfl, rfl, { h with screen := rfl }⟩
  | clearScreen => exact ⟨rfl, rfl, { h with screen := congrArg Screen.clear h.screen }⟩

/-- **Stale slots are dead.**  Two machines that agree on all but the slots beyond the depth of the
stack reply alike to any actions, in results, failures and what is written, and at the end agree on
all but the slots that are beyond the depth then. -/
theorem stale_slots_are_dead (h : m.SameButStale m') (l : Logger) (actions : List Action) :
    m'.replies l actions = m.replies l actions ∧
      (m.after actions).SameButStale (m'.after actions) := by
  induction actions generalizing m m' with
  | nil => exact ⟨rfl, h⟩
  | cons action actions ih =>
    obtain ⟨hresult, htrace, hmachines⟩ := sameButStale_perform h action
    obtain ⟨hreplies, hends⟩ := ih hmachines
    rw [replies_cons, replies_cons, hresult, htrace, hreplies]
    exact ⟨rfl, hends⟩

/-- A machine that is about to call and return, and then to return once more. -/
def calling : Machine :=
  { start ⟨#[0x20, 0x02, 0x00, 0xEE]⟩ .standard with pc := 0 }

/-- The same machine, on which older calls have used all slots. -/
def callingAgain : Machine :=
  { calling with stack := ⟨Vector.replicate 16 0x234, 0, Nat.zero_le _⟩ }

/-- What these have left shows neither in the call, nor in the returns, nor in the failure. -/
theorem calling_again_alike :
    callingAgain.replies ((Logger.initial false).setLogs true) [.step, .tick, .run 2, .press 3] =
        calling.replies ((Logger.initial false).setLogs true) [.step, .tick, .run 2, .press 3] ∧
      (calling.after [.step, .step]).SameButStale (callingAgain.after [.step, .step]) := by
  have hsame : calling.SameButStale callingAgain :=
    same_withStack ⟨rfl, fun k hk => absurd hk (Nat.not_lt_zero k)⟩
  exact ⟨(stale_slots_are_dead hsame _ _).1, (stale_slots_are_dead hsame (.initial false) _).2⟩

end Machine

end Chip8
