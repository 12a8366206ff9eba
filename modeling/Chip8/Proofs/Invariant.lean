import Chip8.Proofs.Failure

/-!
# The invariant of the machine

A machine is started on a memory and a screen, and then steps, runs and is worked on by its host, in
any order and whether an action fails or not.  What it holds stays within bounds all the time.

Most bounds are kept by each operation alone.  The one on the program counter is not: a return sets
it to whatever the stack holds, so the invariant also bounds the return addresses, including those in
slots that are no longer in use (`Machine.Invariant`).  A return address is that of the instruction
behind a call, and the word of the call has been read from memory, so it is at most the size of the
memory.

The main results are:

* `Machine.Invariant.step` — a step keeps the invariant, whether it completes or fails.
* `Machine.bounds_after` — the bounds after any sequence of actions.
-/

namespace Chip8.Machine

/-! ## The bounds -/

/-- The bounds on what a machine holds, for a memory and a screen of given sizes. -/
structure Bounds (size width height : Nat) (m : Machine) : Prop where
  registers : m.v.toList.length = 16 ∧ ∀ value ∈ m.v.toList, value.toNat ≤ 255
  address : 0 ≤ m.i ∧ m.i ≤ 65535
  delay : m.delay.toNat ≤ 255
  depth : m.stack.depth ≤ 16
  slots : m.stack.slots.toList.length = 16 ∧ ∀ slot ∈ m.stack.slots.toList, slot.toNat ≤ 65535
  /-- A jump leads to an address of twelve bits, and a skip at the end of memory two words on. -/
  counter : 0 ≤ m.pc ∧ m.pc ≤ max 0xFFF (size + 2)
  memory : m.memory.size = size
  screen : m.screen.width = width ∧ m.screen.height = height
  pixels : m.screen.rows.toList.length = height ∧
    ∀ row ∈ m.screen.rows.toList, row.toList.length = width ∧ ∀ pixel ∈ row.toList, pixel.toNat ≤ 1
  keys : m.keypad.down.toList.length = 16 ∧ ∀ key ∈ m.keypad.down.toList, key.toNat ≤ 1

/-- What each action keeps: the bounds that do not hold of every machine, and a bound on the return
addresses. -/
structure Invariant (size width height : Nat) (m : Machine) : Prop where
  address : 0 ≤ m.i ∧ m.i ≤ 65535
  counter : 0 ≤ m.pc ∧ m.pc ≤ max 0xFFF (size + 2)
  returns : ∀ k : Fin CallStack.capacity, m.stack.slots[k].toNat ≤ size
  memory : m.memory.size = size
  screen : m.screen.width = width ∧ m.screen.height = height

variable {size width height : Nat} {m next : Machine}

theorem Invariant.bounds (h : m.Invariant size width height) : m.Bounds size width height where
  registers := by
    refine ⟨m.v.length_toList, ?_⟩
    intro value _
    exact Nat.le_of_lt_succ value.toNat_lt
  address := h.address
  delay := Nat.le_of_lt_succ m.delay.toNat_lt
  depth := m.stack.depth_le
  slots := by
    refine ⟨m.stack.slots.length_toList, ?_⟩
    intro slot _
    exact Nat.le_of_lt_succ slot.toNat_lt
  counter := h.counter
  memory := h.memory
  screen := h.screen
  pixels := by
    obtain ⟨rfl, rfl⟩ := h.screen
    refine ⟨m.screen.rows.length_toList, ?_⟩
    intro row _
    refine ⟨row.length_toList, ?_⟩
    intro pixel _
    exact pixel.toNat_le
  keys := by
    refine ⟨m.keypad.down.length_toList, ?_⟩
    intro key _
    exact key.toNat_le

theorem Invariant.start (memory : Memory) (screen : Screen) :
    (start memory screen).Invariant memory.size screen.width screen.height where
  address := by
    simp only [Machine.start]
    omega
  counter := by
    simp only [Machine.start, Memory.programStart]
    omega
  returns := by
    intro k
    simp [Machine.start, CallStack.empty]
  memory := rfl
  screen := ⟨rfl, rfl⟩

/-! ## Steps -/

/-- An instruction that has been fetched ends within memory. -/
theorem Invariant.past (h : m.Invariant size width height) (hrange : m.memory.InBounds m.pc 2) :
    m.past.Invariant size width height where
  address := h.address
  counter := by
    have hend := hrange.2.2
    rw [h.memory] at hend
    simp only [Machine.past]
    have := hrange.1
    omega
  returns := h.returns
  memory := h.memory
  screen := h.screen

theorem Invariant.pastOrSkip (h : m.Invariant size width height)
    (hrange : m.memory.InBounds m.pc 2) (skip : Prop) [Decidable skip] :
    (m.pastOrSkip skip).Invariant size width height where
  address := h.address
  counter := by
    obtain ⟨hstart, -, hend⟩ := hrange
    rw [h.memory] at hend
    simp only [Machine.pastOrSkip]
    split <;> omega
  returns := h.returns
  memory := h.memory
  screen := h.screen

/-- The latest return address is one of those that the invariant bounds. -/
theorem Invariant.top_le (h : m.Invariant size width height) {k : Nat} {address : UInt16}
    (htop : m.stack.slots[k]? = some address) : address.toNat ≤ size := by
  obtain ⟨hk, rfl⟩ := Vector.getElem?_eq_some_iff.mp htop
  exact h.returns ⟨k, hk⟩

theorem Effect.invariant {w : Nat} (heffect : Effect m w next)
    (hrange : m.memory.InBounds m.pc 2) (h : m.Invariant size width height) :
    next.Invariant size width height := by
  have hpast := h.past hrange
  cases heffect with
  | clearScreen screen hsize dark dirty =>
    exact { hpast with screen := ⟨hsize.1.trans h.screen.1, hsize.2.trans h.screen.2⟩ }
  | returnFrom stack address depth slots top =>
    have hle := h.top_le top
    refine { hpast with counter := ?_, returns := ?_ }
    · simp only
      omega
    · simp only [slots]
      exact h.returns
  | jump nnn =>
    refine { hpast with counter := ?_ }
    simp only
    omega
  | call nnn stack depth slots =>
    refine { hpast with counter := ?_, returns := ?_ }
    · simp only
      omega
    · intro k
      -- The return address is the end of the word of the call, which lies in memory.
      have hend := hrange.2.2
      have hslot := slots k
      have hk := h.returns k
      rw [h.memory] at hend
      simp only
      split at hslot <;> omega
  | skipIfByte | skipUnlessByte | skipIfEqual | skipUnlessEqual | skipIfUp =>
    exact h.pastOrSkip hrange _
  | setByte | addByte | copy | readDelay | setDelay | load => exact { hpast with }
  | setI nnn =>
    refine { hpast with address := ?_ }
    simp only
    omega
  | draw x y n screen hit range drawn dirty =>
    have hsize :=
      m.screen.size_draw (m.v.get x).toNat (m.v.get y).toNat (m.memory.slice m.i.toNat n)
    rw [drawn] at hsize
    exact { hpast with screen := ⟨hsize.1.trans h.screen.1, hsize.2.trans h.screen.2⟩ }
  | addI x =>
    refine { hpast with address := ?_ }
    simp only
    omega
  | glyphAddress x =>
    have hbyte := (m.v.get x).toNat_lt
    refine { hpast with address := ?_ }
    simp only
    omega
  | storeDigits x memory range hsize bytes =>
    exact { hpast with memory := hsize.trans h.memory }

/-- A failing step moves the program counter by at most one word, and only within memory. -/
theorem Invariant.afterFailure (h : m.Invariant size width height) :
    m.afterFailure.Invariant size width height where
  address := h.address
  counter := by
    have hcounter := h.counter
    simp only [Machine.afterFailure]
    split
    next hrange => exact (h.past hrange).counter
    next => exact hcounter
  returns := h.returns
  memory := h.memory
  screen := h.screen

/-- A step keeps the invariant, whether it completes or fails. -/
theorem Invariant.step (h : m.Invariant size width height) :
    m.step.machine.Invariant size width height := by
  cases hresult : m.step.result with
  | ok ins =>
    obtain ⟨hrange, -, heffect⟩ := effect_of_step hresult
    exact heffect.invariant hrange h
  | error fault =>
    rw [step_of_fails (fails_of_step hresult)]
    exact h.afterFailure

/-! ## Runs and actions -/

theorem Invariant.run (h : m.Invariant size width height) (n : Nat) :
    (m.run n).machine.Invariant size width height := by
  induction n generalizing m with
  | zero => exact h
  | succ n ih =>
    have hstep := h.step
    rw [Machine.run]
    rcases hm : m.step with ⟨next, fault | ins⟩
    · rw [hm] at hstep
      exact hstep
    · rw [hm] at hstep
      exact ih hstep

theorem Invariant.of_undisturbed (h : m.Invariant size width height)
    (hsame : m.Undisturbed next) : next.Invariant size width height where
  address := by
    rw [hsame.i]
    exact h.address
  counter := by
    rw [hsame.pc]
    exact h.counter
  returns := by
    rw [hsame.stack]
    exact h.returns
  memory := hsame.memory.trans h.memory
  screen := ⟨hsame.screen.1.trans h.screen.1, hsame.screen.2.trans h.screen.2⟩

/-- An action keeps the invariant, whether it succeeds or fails. -/
theorem Invariant.perform (h : m.Invariant size width height) (action : Action) :
    (m.perform action).machine.Invariant size width height := by
  rcases m.perform_cases action with rfl | ⟨n, rfl⟩ | hsame
  · exact h.step
  · exact h.run n
  · exact h.of_undisturbed hsame

theorem Invariant.after (h : m.Invariant size width height) (actions : List Action) :
    (m.after actions).Invariant size width height := by
  induction actions generalizing m with
  | nil => exact h
  | cons action actions ih =>
    rw [after_cons]
    exact ih (h.perform action)

/-- **The machine stays within bounds.**  Whatever memory and screen it is started on, and whatever
actions follow, whether they succeed or fail, each part of the machine keeps its size and range. -/
theorem bounds_after (memory : Memory) (screen : Screen) (actions : List Action) :
    ((start memory screen).after actions).Bounds memory.size screen.width screen.height := by
  have hinvariant := (Invariant.start memory screen).after actions
  exact hinvariant.bounds

end Chip8.Machine
