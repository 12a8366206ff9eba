import Chip8.Proofs.Inputs
import Chip8.Proofs.Overlay
import Chip8.Proofs.Replies

/-!
# Memory that is not read

A program reads memory in three places: where it fetches an instruction, where it takes the rows of
a sprite, and where it loads registers (`Machine.Reads`).  A byte that a run does not read in one of
them could be any other byte.  Every step would come to the same and write the same, and the machine
would be the same at any time, but for the byte itself: it stays what it is until digits are stored
over it, and from then on there is no difference at all.

The instruction that stores digits is the only one that does not take a machine with the other byte
to a machine with the other byte (`Machine.endsAlike_storeDigits`), and then it makes the two equal,
so nothing is left to tell them apart.

The main result is `Machine.unread_byte_is_irrelevant`.
-/

namespace Chip8

/-! ## Another byte in memory -/

namespace Memory

/-- The memory with another byte at an address; beyond the end there is none to be changed. -/
def withByte (m : Memory) (a : Nat) (b : UInt8) : Memory :=
  ⟨m.bytes.setIfInBounds a b⟩

variable {m m' : Memory} {a : Nat} {b : UInt8}

@[simp] theorem size_withByte (m : Memory) (a : Nat) (b : UInt8) :
    (m.withByte a b).size = m.size := by
  simp [withByte, size]

@[simp] theorem inBounds_withByte (m : Memory) (a : Nat) (b : UInt8) (address length : Int) :
    (m.withByte a b).InBounds address length ↔ m.InBounds address length :=
  inBounds_congr (size_withByte m a b) address length

theorem byte_withByte (m : Memory) (a : Nat) (b : UInt8) (k : Nat) :
    (m.withByte a b).byte k = if k = a ∧ k < m.size then b else m.byte k := by
  unfold withByte byte size
  rw [Array.getD_eq_getD_getElem?, Array.getD_eq_getD_getElem?, Array.getElem?_setIfInBounds]
  by_cases hk : k = a
  · by_cases hsize : k < m.bytes.size
    · simp [← hk, hsize]
    · simp [← hk, hsize]
  · simp [hk, Ne.symm hk]

theorem byte_withByte_of_ne {k : Nat} (h : k ≠ a) : (m.withByte a b).byte k = m.byte k := by
  rw [byte_withByte, if_neg (fun hk => h hk.1)]

/-- A range that does not have the address in it has the same bytes. -/
theorem slice_withByte {start length : Nat} (h : ¬ (start ≤ a ∧ a < start + length)) :
    (m.withByte a b).slice start length = m.slice start length := by
  refine List.map_congr_left fun k hk => byte_withByte_of_ne ?_
  have := List.mem_range.mp hk
  omega

/-- Writing over the address makes the byte that was there before irrelevant; writing elsewhere
leaves it alone. -/
theorem overwrite_withByte {start : Nat} {bs : List UInt8} (h : start + bs.length ≤ m.size) :
    (m.withByte a b).overwrite start bs =
      if start ≤ a ∧ a < start + bs.length then m.overwrite start bs
      else (m.overwrite start bs).withByte a b := by
  have h' : start + bs.length ≤ (m.withByte a b).size := by rwa [size_withByte]
  have hsize := size_overwrite h
  have hsize' := size_overwrite h'
  rw [size_withByte] at hsize'
  split
  next hover =>
    apply ext_byte
    · rw [hsize', hsize]
    · intro k
      rw [byte_overwrite h', byte_overwrite h, byte_withByte]
      grind
  next helse =>
    apply ext_byte
    · rw [hsize', size_withByte, hsize]
    · intro k
      rw [byte_overwrite h', byte_withByte, byte_withByte, byte_overwrite h, hsize]
      grind

end Memory

namespace Machine

variable {m : Machine} {ins : Instruction} {a : Nat} {b : UInt8} {actions : List Action}

/-- The machine with another byte at an address. -/
def withByte (m : Machine) (a : Nat) (b : UInt8) : Machine :=
  { m with memory := m.memory.withByte a b }

@[simp] theorem memory_withByte (m : Machine) (a : Nat) (b : UInt8) :
    (m.withByte a b).memory = m.memory.withByte a b :=
  rfl

@[simp] theorem v_withByte (m : Machine) (a : Nat) (b : UInt8) : (m.withByte a b).v = m.v := rfl

@[simp] theorem i_withByte (m : Machine) (a : Nat) (b : UInt8) : (m.withByte a b).i = m.i := rfl

@[simp] theorem pc_withByte (m : Machine) (a : Nat) (b : UInt8) : (m.withByte a b).pc = m.pc := rfl

@[simp] theorem stack_withByte (m : Machine) (a : Nat) (b : UInt8) :
    (m.withByte a b).stack = m.stack :=
  rfl

/-! ## Reading -/

/-- The next step reads a byte: it fetches an instruction from there, or completes one that draws a
sprite or loads registers from there.  An access that fails reads nothing. -/
inductive Reads (m : Machine) (a : Nat) : Prop
  | word (ins : Instruction) (fetched : m.fetch = .ok ins) (within : m.pc ≤ a ∧ a < m.pc + 2)
  | sprite (ins : Instruction) (completed : m.step.result = .ok ins)
      (draws : ins.mnemonic = some .drw) (within : m.i ≤ a ∧ a < m.i + ins.n.val)
  | registers (ins : Instruction) (completed : m.step.result = .ok ins)
      (loads : ins.mnemonic = some .load) (within : m.i ≤ a ∧ a ≤ m.i + ins.x.val)

/-- What is fetched does not depend on a byte that is not read. -/
theorem fetch_withByte (h : ¬ m.Reads a) : (m.withByte a b).fetch = m.fetch := by
  rw [fetch_eq, fetch_eq]
  simp only [memory_withByte, pc_withByte, Memory.inBounds_withByte]
  split
  next hrange =>
    have hfetch : m.fetch = .ok (.ofWord (UInt16.ofNat m.word)) := by
      rw [fetch_eq, if_pos hrange]
    have hout : ¬ (m.pc ≤ a ∧ a < m.pc + 2) := fun hwithin => h (.word _ hfetch hwithin)
    obtain ⟨hstart, -⟩ := hrange
    rw [word, word, memory_withByte, pc_withByte, Memory.byte_withByte_of_ne (by omega),
      Memory.byte_withByte_of_ne (by omega)]
  next => rfl

/-! ## One instruction -/

/-- A sprite whose rows are the same is drawn in the same way. -/
theorem run_drawSprite_withByte {x y n : Fin 16}
    (h : m.memory.InBounds m.i n.val → ¬ (m.i ≤ a ∧ a < m.i + n.val)) :
    (drawSprite x y n).run (m.withByte a b) =
      onMachine (withByte · a b) ((drawSprite x y n).run m) := by
  have hbounds : (m.withByte a b).memory.InBounds (m.withByte a b).i n.val ↔
      m.memory.InBounds m.i n.val := Memory.inBounds_withByte m.memory a b m.i n.val
  rw [run_drawSprite, run_drawSprite]
  by_cases hrange : m.memory.InBounds m.i n.val
  · have hout := h hrange
    have hslice : (m.withByte a b).memory.slice (m.withByte a b).i.toNat n.val =
        m.memory.slice m.i.toNat n.val := by
      obtain ⟨hstart, -⟩ := hrange
      show (m.memory.withByte a b).slice m.i.toNat n.val = _
      exact Memory.slice_withByte (by omega)
    rw [if_pos hrange, if_pos (hbounds.mpr hrange), hslice]
    rfl
  · rw [if_neg hrange, if_neg (mt hbounds.mp hrange)]
    rfl

/-- Registers for which the bytes are the same are loaded in the same way. -/
theorem run_loadRegisters_withByte {x : Fin 16}
    (h : m.memory.InBounds m.i (x.val + 1) → ¬ (m.i ≤ a ∧ a ≤ m.i + x.val)) :
    (loadRegisters x).run (m.withByte a b) =
      onMachine (withByte · a b) ((loadRegisters x).run m) := by
  rw [run_loadRegisters, run_loadRegisters]
  simp only [memory_withByte, i_withByte, v_withByte, Memory.inBounds_withByte]
  split
  next hrange =>
    have hout := h hrange
    obtain ⟨hstart, -⟩ := hrange
    rw [Memory.slice_withByte (by omega)]
    rfl
  next => rfl

/-! ## The other byte after some instructions -/

/-- The second machine is the first with another byte at an address, or the first itself if an
instruction among some has stored a digit there. -/
def OtherByte (a : Nat) (b : UInt8) (past : List Executed) (m m' : Machine) : Prop :=
  m' = if ∃ e ∈ past, e.Covers a then m else m.withByte a b

theorem OtherByte.looksSame {past : List Executed} {m m' : Machine} (h : OtherByte a b past m m') :
    LooksSame m m' := by
  rw [OtherByte] at h
  rw [h]
  split <;> exact ⟨rfl, rfl, rfl, rfl, rfl⟩

theorem OtherByte.completed {past : List Executed} {m m' : Machine} (h : OtherByte a b past m m') :
    OtherByte a b past m.completed m'.completed := by
  rw [OtherByte] at h ⊢
  rw [h]
  split <;> rfl

theorem otherByte_withByte {past : List Executed} (h : ∀ e ∈ past, ¬ e.Covers a) (m : Machine) :
    OtherByte a b past m (m.withByte a b) := by
  have hnone : ¬ ∃ e ∈ past, e.Covers a := by
    rintro ⟨e, he, hcovers⟩
    exact h e he hcovers
  rw [OtherByte, if_neg hnone]

/-- Instructions that have stored no digit there make no difference. -/
theorem otherByte_append {past later : List Executed} (h : ¬ ∃ e ∈ past, e.Covers a)
    {m m' : Machine} : OtherByte a b (past ++ later) m m' ↔ OtherByte a b later m m' := by
  have hlater : (∃ e ∈ past ++ later, e.Covers a) ↔ ∃ e ∈ later, e.Covers a := by
    constructor
    · rintro ⟨e, he, hcovers⟩
      obtain hpast | hafter := List.mem_append.mp he
      · exact absurd ⟨e, hpast, hcovers⟩ h
      · exact ⟨e, hafter, hcovers⟩
    · rintro ⟨e, he, hcovers⟩
      exact ⟨e, List.mem_append_right _ he, hcovers⟩
  simp only [OtherByte, hlater]

theorem eq_of_mem_stepped {e : Executed} (he : e ∈ m.stepped) :
    m.step.result = .ok e.ins ∧ e.machine = m := by
  rw [stepped] at he
  split at he
  next ins hok =>
    obtain rfl := List.mem_singleton.mp he
    exact ⟨hok, rfl⟩
  next => cases he

/-- An instruction that stores no digits leaves the other byte where it is. -/
theorem otherByte_of_fetch (hfetch : m.fetch = .ok ins) (hdigits : ins.mnemonic ≠ some .ldDigits)
    (next : Machine) : OtherByte a b m.stepped next (next.withByte a b) := by
  refine otherByte_withByte ?_ next
  intro e he hcovers
  obtain ⟨hok, -⟩ := eq_of_mem_stepped he
  obtain ⟨hins, -⟩ := execute_of_step hok
  rw [hfetch] at hins
  cases hins
  exact hdigits hcovers.1

/-! ## Instructions that do not read it -/

/-- Digits that have room are stored over the address if it is one of their three. -/
theorem covers_stepped_iff (hfetch : m.fetch = .ok ins) (hdigits : ins.mnemonic = some .ldDigits)
    (hrange : m.memory.InBounds m.i 3) :
    (∃ e ∈ m.stepped, e.Covers a) ↔ m.i.toNat ≤ a ∧ a < m.i.toNat + 3 := by
  have hstepped : m.stepped = [⟨m, ins⟩] := by
    rw [stepped, step_of_storeDigits hfetch hdigits hrange]
  obtain ⟨hstart, -⟩ := hrange
  simp only [hstepped, List.mem_singleton, exists_eq_left, Executed.Covers, hdigits, true_and]
  omega

/-- Digits that have no room are not stored. -/
theorem not_mem_stepped_of_outside (hfetch : m.fetch = .ok ins)
    (hdigits : ins.mnemonic = some .ldDigits) (hrange : ¬ m.memory.InBounds m.i 3) (e : Executed) :
    e ∉ m.stepped := by
  intro he
  obtain ⟨hok, -⟩ := eq_of_mem_stepped he
  obtain ⟨hins, next, hexec, -⟩ := execute_of_step hok
  rw [hfetch] at hins
  cases hins
  have hrange' : ¬ m.advance.memory.InBounds m.advance.i 3 := hrange
  rw [execute, Exec.run_get_bind, hdigits] at hexec
  simp only [run_storeDigits, if_neg hrange'] at hexec
  cases hexec

/-- Stored digits leave the other byte where it is, or take its place. -/
theorem endsAlike_storeDigits (hfetch : m.fetch = .ok ins)
    (hdigits : ins.mnemonic = some .ldDigits) :
    EndsAlike (OtherByte a b m.stepped) ((storeDigits ins.x).run m.advance)
      ((storeDigits ins.x).run (m.advance.withByte a b)) := by
  simp only [run_storeDigits, memory_withByte, i_withByte, v_withByte, Memory.inBounds_withByte]
  refine EndsAlike.check ?_ ?_
  · intro hrange
    have hcovers := covers_stepped_iff (a := a) hfetch hdigits hrange
    have hover : (m.memory.withByte a b).overwrite m.i.toNat
        ((decimalDigits (m.v.get ins.x)).map UInt8.ofInt) =
          if m.i.toNat ≤ a ∧ a < m.i.toNat + 3 then
            m.memory.overwrite m.i.toNat ((decimalDigits (m.v.get ins.x)).map UInt8.ofInt)
          else
            (m.memory.overwrite m.i.toNat
              ((decimalDigits (m.v.get ins.x)).map UInt8.ofInt)).withByte a b :=
      Memory.overwrite_withByte hrange.add_le
    rw [OtherByte]
    by_cases hin : m.i.toNat ≤ a ∧ a < m.i.toNat + 3
    · rw [if_pos hin] at hover
      rw [if_pos (hcovers.mpr hin)]
      exact congrArg (fun memory => { m.advance with memory := memory }) hover
    · rw [if_neg hin] at hover
      rw [if_neg (mt hcovers.mp hin)]
      exact congrArg (fun memory => { m.advance with memory := memory }) hover
  · intro hrange
    refine otherByte_withByte (fun e he _ => ?_) m.advance
    exact not_mem_stepped_of_outside hfetch hdigits hrange e he

/-- Registers for which there are enough bytes are loaded. -/
theorem result_of_load (hfetch : m.fetch = .ok ins) (hload : ins.mnemonic = some .load)
    (hrange : m.memory.InBounds m.i (ins.x.val + 1)) : m.step.result = .ok ins := by
  have hrun : (execute ins).run m.advance = (loadRegisters ins.x).run m.advance := by
    rw [execute, Exec.run_get_bind, hload]
  have hexec := (run_loadRegisters ins.x m.advance).trans (if_pos hrange)
  rw [step_of_execute hfetch (hrun.trans hexec)]

/-- An instruction that does not read the other byte ends as it would without it. -/
theorem endsAlike_withByte (hfetch : m.fetch = .ok ins) (h : ¬ m.Reads a) :
    EndsAlike (OtherByte a b m.stepped) ((execute ins).run m.advance)
      ((execute ins).run (m.advance.withByte a b)) := by
  by_cases hstore : ins.usesStore = false
  · refine EndsAlike.withStore hstore fun next hmemory hstack => ?_
    have hsame : next.withStore (m.memory.withByte a b) m.stack = next.withByte a b := by
      have hnext : next.withByte a b = next.withStore (next.memory.withByte a b) next.stack := rfl
      rw [hnext, hmemory, hstack]
      rfl
    show OtherByte a b m.stepped next (next.withStore (m.memory.withByte a b) m.stack)
    rw [hsame]
    refine otherByte_of_fetch hfetch ?_ next
    intro hk
    simp [Instruction.usesStore, hk] at hstore
  · have hkeeps : ins.mnemonic ≠ some .ldDigits →
        ∀ next, OtherByte a b m.stepped next (next.withByte a b) :=
      otherByte_of_fetch hfetch
    cases hk : ins.mnemonic with
    | none => simp [Instruction.usesStore, hk] at hstore
    | some mnemonic =>
      rw [execute, Exec.run_get_bind, Exec.run_get_bind, hk]
      cases mnemonic with
      | ret =>
        simp only [run_returnFrom, stack_withByte]
        cases m.advance.stack.pop? with
        | none => exact .error _ (hkeeps (by simp [hk]) _)
        | some top => exact .ok (hkeeps (by simp [hk]) _)
      | call =>
        simp only [run_callTo, stack_withByte, pc_withByte]
        cases m.advance.stack.push? (UInt16.ofInt m.advance.pc) with
        | none => exact .error _ (hkeeps (by simp [hk]) _)
        | some stack =>
          exact .check (fun _ => hkeeps (by simp [hk]) _) (fun _ => hkeeps (by simp [hk]) _)
      | drw =>
        have hout : m.memory.InBounds m.i ins.n.val → ¬ (m.i ≤ a ∧ a < m.i + ins.n.val) := by
          intro hrange hin
          obtain ⟨hok, -⟩ := draws_of_fetch hfetch hk hrange
          exact h (.sprite ins hok hk hin)
        simp only [run_drawSprite_withByte (m := m.advance) hout]
        exact .onMachine (hkeeps (by simp [hk])) _
      | load =>
        have hout : m.memory.InBounds m.i (ins.x.val + 1) →
            ¬ (m.i ≤ a ∧ a ≤ m.i + ins.x.val) := by
          intro hrange hin
          exact h (.registers ins (result_of_load hfetch hk hrange) hk hin)
        simp only [run_loadRegisters_withByte (m := m.advance) hout]
        exact .onMachine (hkeeps (by simp [hk])) _
      | ldDigits => exact endsAlike_storeDigits hfetch hk
      | _ => simp [Instruction.usesStore, hk] at hstore

/-! ## Steps and runs -/

/-- **A step that does not read a byte comes to the same with another one**, and leaves it where it
is, unless it stores a digit there. -/
theorem stepsAlike_withByte (h : ¬ m.Reads a) :
    StepsAlike (OtherByte a b m.stepped) m (m.withByte a b) := by
  have hsame : (m.withByte a b).fetch = m.fetch := fetch_withByte h
  cases hfetch : m.fetch with
  | error access =>
    refine .of_fetch_error hfetch (hsame.trans hfetch) ?_
    refine otherByte_withByte ?_ { m with currentPc := m.pc }
    intro e he _
    obtain ⟨hok, -⟩ := eq_of_mem_stepped he
    obtain ⟨hins, -⟩ := execute_of_step hok
    rw [hfetch] at hins
    cases hins
  | ok ins =>
    exact .of_execute hfetch (hsame.trans hfetch) rfl OtherByte.looksSame OtherByte.completed
      (endsAlike_withByte hfetch h)

/-- What a host does to the inputs has nothing to do with memory. -/
theorem perform_withByte {action : Action} (hinput : action.isInput = true) :
    ((m.withByte a b).perform action).result = (m.perform action).result ∧
      ((m.withByte a b).perform action).machine = (m.perform action).machine.withByte a b := by
  have hkeypad : (m.withByte a b).keypad = m.keypad := rfl
  cases action with
  | press key =>
    simp only [perform, hkeypad]
    cases m.keypad.press key <;> exact ⟨rfl, rfl⟩
  | release key =>
    simp only [perform, hkeypad]
    cases m.keypad.release key <;> exact ⟨rfl, rfl⟩
  | tick | isDown key | resetKeys => exact ⟨rfl, rfl⟩
  | _ => cases hinput

theorem executed_input (m : Machine) {action : Action} (hinput : action.isInput = true) :
    m.executed action = [] ∧ m.trace action = [] := by
  cases action with
  | tick | press key | release key | isDown key | resetKeys => exact ⟨rfl, rfl⟩
  | _ => cases hinput

/-- A run that does not read a byte replies as it would with another one, and leaves it where it is,
unless it stores a digit there. -/
theorem otherByte_after (l : Logger) (hactions : OnlyStepsAndInputs actions)
    (hunread : ∀ before ∈ m.beforeSteps actions, ¬ before.Reads a) :
    (m.withByte a b).replies l actions = m.replies l actions ∧
      OtherByte a b (m.history actions) (m.after actions) ((m.withByte a b).after actions) := by
  induction actions generalizing m with
  | nil => exact ⟨rfl, otherByte_withByte (by simp [history]) m⟩
  | cons action actions ih =>
    obtain ⟨haction, hrest⟩ := List.forall_mem_cons.mp hactions
    rw [replies_cons, replies_cons, history, after_cons, after_cons]
    obtain rfl | hinput := haction
    · obtain ⟨hfirst, hlater⟩ := List.forall_mem_cons.mp hunread
      have hsteps := stepsAlike_withByte (b := b) hfirst
      have hresult : ((m.withByte a b).perform .step).result = (m.perform .step).result := by
        simp only [perform, hsteps.result]
      have htrace : (m.withByte a b).trace .step = m.trace .step := hsteps.trace
      have hmachine : ((m.withByte a b).perform .step).machine =
          if ∃ e ∈ m.stepped, e.Covers a then (m.perform .step).machine
          else (m.perform .step).machine.withByte a b := hsteps.machines
      rw [hresult, htrace, hmachine]
      by_cases hcovers : ∃ e ∈ m.stepped, e.Covers a
      · -- From here on the two runs are the same run.
        rw [if_pos hcovers]
        refine ⟨rfl, ?_⟩
        obtain ⟨e, he, hcover⟩ := hcovers
        rw [OtherByte, if_pos ⟨e, List.mem_append_left _ he, hcover⟩]
      · rw [if_neg hcovers]
        obtain ⟨hreplies, hends⟩ := ih hrest hlater
        exact ⟨congrArg _ hreplies, (otherByte_append hcovers).mpr hends⟩
    · rw [beforeSteps_cons_input hinput] at hunread
      obtain ⟨hresult, hmachine⟩ := perform_withByte (m := m) (a := a) (b := b) hinput
      obtain ⟨hexecuted, htrace⟩ := m.executed_input hinput
      obtain ⟨-, htrace'⟩ := (m.withByte a b).executed_input hinput
      rw [hresult, hmachine, hexecuted, htrace, htrace', List.nil_append]
      obtain ⟨hreplies, hends⟩ := ih hrest hunread
      exact ⟨congrArg _ hreplies, hends⟩

theorem beforeSteps_append (m : Machine) (past later : List Action) :
    m.beforeSteps (past ++ later) = m.beforeSteps past ++ (m.after past).beforeSteps later := by
  induction past generalizing m with
  | nil => rfl
  | cons action past ih =>
    cases action with
    | step => exact congrArg (m :: ·) (ih m.step.machine)
    | _ => exact ih _

/-- **A byte that a run does not read is irrelevant to it.**  Take a run of steps between which the
host ticks the timer and changes keys as it likes, and a byte that no step of it reads.  With any
other byte in its place each action has the same result or fails for the same reason, and the same
is written about it.  At each point of the run the machine is the same but for that byte, and the
very same once an instruction has stored a digit there. -/
theorem unread_byte_is_irrelevant (m : Machine) (a : Nat) (b : UInt8) (l : Logger)
    (hactions : OnlyStepsAndInputs actions)
    (hunread : ∀ before ∈ m.beforeSteps actions, ¬ before.Reads a) :
    (m.withByte a b).replies l actions = m.replies l actions ∧
      ∀ past, past <+: actions →
        (m.withByte a b).after past =
          if ∃ e ∈ m.history past, e.Covers a then m.after past
          else (m.after past).withByte a b := by
  constructor
  · exact (otherByte_after l hactions hunread).1
  · rintro past ⟨later, rfl⟩
    rw [beforeSteps_append] at hunread
    have hpast : OnlyStepsAndInputs past := fun action h => hactions action (List.mem_append_left _ h)
    exact (otherByte_after l hpast fun before h => hunread before (List.mem_append_left _ h)).2

/-- A machine that is about to store the digits of V0 behind its program. -/
def storing : Machine :=
  { start ⟨#[0xF0, 0x33, 0, 0, 0, 0, 0, 0]⟩ .standard with
    pc := 0
    i := 4
    v := Vector.replicate 16 123 }

/-- Its step reads no more than the instruction. -/
theorem storing_reads {a : Nat} (ha : 2 ≤ a) :
    ∀ before ∈ storing.beforeSteps [.step, .tick], ¬ before.Reads a := by
  intro before hbefore hreads
  obtain rfl := List.mem_singleton.mp hbefore
  have hresult : storing.step.result = .ok (.ofWord 0xF033) := rfl
  cases hreads with
  | word ins hfetch hwithin =>
    have hpc : storing.pc = 0 := rfl
    omega
  | sprite ins hok hdraws =>
    rw [hresult] at hok
    cases hok
    exact absurd hdraws (by decide)
  | registers ins hok hloads =>
    rw [hresult] at hok
    cases hok
    exact absurd hloads (by decide)

/-- With tracing on, the digits hide what stood in their place, and another byte behind them is the
only difference that it makes. -/
theorem storing_hides_byte :
    (storing.withByte 5 9).replies ((Logger.initial true).setLogs true) [.step, .tick] =
        storing.replies ((Logger.initial true).setLogs true) [.step, .tick] ∧
      (storing.withByte 5 9).after [.step] = storing.after [.step] ∧
      (storing.withByte 7 9).after [.step] = (storing.after [.step]).withByte 7 9 := by
  have hhistory : storing.history [.step] = [⟨storing, .ofWord 0xF033⟩] := rfl
  obtain ⟨hreplies, hafter⟩ := storing.unread_byte_is_irrelevant 5 9
    ((Logger.initial true).setLogs true) (by decide) (storing_reads (by decide))
  obtain ⟨-, hbehind⟩ := storing.unread_byte_is_irrelevant 7 9 (.initial true) (by decide)
    (storing_reads (by decide))
  refine ⟨hreplies, ?_, ?_⟩
  · have hstep := hafter [.step] (by decide)
    rwa [hhistory, if_pos (by decide)] at hstep
  · have hstep := hbehind [.step] (by decide)
    rwa [hhistory, if_neg (by decide)] at hstep

end Machine

end Chip8
