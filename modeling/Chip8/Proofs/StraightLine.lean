import Chip8.Proofs.Frame
import Chip8.Proofs.ProgramImage

/-!
# Straight-line programs

A program of assignments to registers (`Assignment`) does what it says: assembled, loaded and run
for as many cycles as it has instructions, it leaves in the registers what the assignments make of
sixteen zeros, one after the other.  Sums wrap at 256, and VF is a register like the others.

What an assignment means is said without bytes and words, of registers that are numbers
(`Assignment.apply`).  An assembled assignment has this meaning as an instruction
(`Machine.step_assignment`), and a run goes through the program because its words stand in memory
one after the other (`Memory.CodeAt`), up to the very end of memory.

The main result is `Machine.run_assembled`.
-/

namespace Chip8

/-- The assignments to registers. -/
inductive Assignment where
  /-- `6xkk`. -/
  | setByte (x : Fin 16) (kk : UInt8)
  /-- `7xkk`. -/
  | addByte (x : Fin 16) (kk : UInt8)
  /-- `8xy0`. -/
  | copy (x y : Fin 16)
deriving DecidableEq, Repr

namespace Assignment

/-! ## Meaning -/

/-- What an assignment does to registers that are numbers. -/
def apply (v : Fin 16 → Nat) : Assignment → Fin 16 → Nat
  | setByte x kk => Function.update v x kk.toNat
  | addByte x kk => Function.update v x ((v x + kk.toNat) % 256)
  | copy x y => Function.update v x (v y)

/-! ## Assembly -/

/-- The word of an assignment. -/
def word : Assignment → Nat
  | setByte x kk => 0x6000 + 0x100 * x + kk.toNat
  | addByte x kk => 0x7000 + 0x100 * x + kk.toNat
  | copy x y => 0x8000 + 0x100 * x + 0x10 * y

/-- The bytes of an assignment, the high one first. -/
def bytes (a : Assignment) : List UInt8 :=
  [UInt8.ofNat (a.word / 256), UInt8.ofNat (a.word % 256)]

/-- The bytes of a program. -/
def assemble (program : List Assignment) : List UInt8 :=
  program.flatMap bytes

variable {a : Assignment} {program : List Assignment}

theorem word_lt (a : Assignment) : a.word < 65536 := by
  cases a with
  | setByte x kk | addByte x kk =>
    have := kk.toNat_lt
    simp only [word]
    omega
  | copy x y =>
    simp only [word]
    omega

theorem assemble_cons (a : Assignment) (program : List Assignment) :
    assemble (a :: program) =
      UInt8.ofNat (a.word / 256) :: UInt8.ofNat (a.word % 256) :: assemble program :=
  rfl

theorem length_assemble (program : List Assignment) :
    (assemble program).length = 2 * program.length := by
  induction program with
  | nil => rfl
  | cons a program ih =>
    rw [assemble_cons, List.length_cons, List.length_cons, ih, List.length_cons]
    omega

theorem getElem?_assemble {k : Nat} (h : program[k]? = some a) :
    (assemble program)[2 * k]? = some (UInt8.ofNat (a.word / 256)) ∧
      (assemble program)[2 * k + 1]? = some (UInt8.ofNat (a.word % 256)) := by
  induction program generalizing k with
  | nil => cases h
  | cons b program ih =>
    cases k with
    | zero =>
      cases h
      exact ⟨rfl, rfl⟩
    | succ k => exact ih h

end Assignment

/-! ## Programs in memory -/

namespace Memory

open Assignment

/-- The words of a program stand in memory one after the other, from an address on. -/
def CodeAt (m : Memory) (start : Int) (program : List Assignment) : Prop :=
  ∀ (k : Nat) (a : Assignment), program[k]? = some a →
    m.readWord (start + 2 * k) = .ok (UInt16.ofNat a.word)

variable {m : Memory} {start : Int} {a : Assignment} {program : List Assignment} {size : Nat}

theorem CodeAt.head (h : m.CodeAt start (a :: program)) :
    m.readWord start = .ok (UInt16.ofNat a.word) := by
  have hfirst := h 0 a rfl
  rwa [Int.natCast_zero, Int.mul_zero, Int.add_zero] at hfirst

theorem CodeAt.tail (h : m.CodeAt start (a :: program)) : m.CodeAt (start + 2) program := by
  intro k b hk
  have hnext := h (k + 1) b hk
  have haddress : start + 2 * (k + 1 : Nat) = start + 2 + 2 * k := by omega
  rwa [haddress] at hnext

/-- A loaded program stands at the program start. -/
theorem HoldsProgram.codeAt (h : HoldsProgram size (assemble program) m)
    (hroom : programStart + 2 * program.length ≤ size) : m.CodeAt programStart program := by
  intro k a hk
  have hword := a.word_lt
  obtain ⟨hhigh, hlow⟩ := getElem?_assemble hk
  have hread := h.readWord (by rw [length_assemble]; exact hroom) hhigh hlow
  have haddress : ((programStart + 2 * k : Nat) : Int) = programStart + 2 * k := by omega
  have hvalue : 256 * (UInt8.ofNat (a.word / 256)).toNat + (UInt8.ofNat (a.word % 256)).toNat =
      a.word := by
    rw [UInt8.toNat_ofNat', UInt8.toNat_ofNat']
    omega
  rwa [haddress, hvalue] at hread

end Memory

/-! ## Running -/

namespace Machine

open Assignment Instruction

variable {m : Machine} {a : Assignment} {program : List Assignment}

/-- The numbers in the registers. -/
def values (v : Vector UInt8 16) (k : Fin 16) : Nat :=
  (v.get k).toNat

theorem values_setV (m : Machine) (x : Fin 16) (b : UInt8) :
    values (m.setV x b).v = Function.update (values m.v) x b.toNat := by
  funext k
  rw [values, get_setV]
  by_cases hk : k = x
  · rw [if_pos hk.symm, hk, Function.update_self]
  · rw [if_neg (Ne.symm hk), Function.update_of_ne hk, values]

/-- An assignment is an instruction that does to the registers what it means, and nothing else. -/
theorem execute_assignment (m : Machine) (a : Assignment) :
    ∃ v, (execute (.ofWord (UInt16.ofNat a.word))).run m = .ok () { m with v := v } ∧
      values v = a.apply (values m.v) := by
  have hword : (UInt16.ofNat a.word).toNat = a.word := by
    rw [UInt16.toNat_ofNat', Nat.mod_eq_of_lt a.word_lt]
  rw [execute, Exec.run_get_bind]
  cases a with
  | setByte x kk =>
    have hrow : (⟨0xF000, 0x6000, .ldByte⟩ : Row) ∈ table := by decide
    obtain ⟨hk, hx, hkk⟩ := ofWord_x_kk (by decide) hrow x kk hword
    rw [hk, hx, hkk]
    exact ⟨_, rfl, values_setV m x kk⟩
  | addByte x kk =>
    have hrow : (⟨0xF000, 0x7000, .addByte⟩ : Row) ∈ table := by decide
    obtain ⟨hk, hx, hkk⟩ := ofWord_x_kk (by decide) hrow x kk hword
    rw [hk, hx, hkk]
    refine ⟨_, rfl, (values_setV m x (m.v.get x + kk)).trans ?_⟩
    rw [UInt8.toNat_add]
    rfl
  | copy x y =>
    have hrow : (⟨0xF00F, 0x8000, .ldReg⟩ : Row) ∈ table := by decide
    obtain ⟨hk, hx, hy⟩ := ofWord_x_y (by decide) hrow x y hword
    rw [hk, hx, hy]
    exact ⟨_, rfl, values_setV m x (m.v.get y)⟩

/-- A step to an assignment does what it means, and moves on. -/
theorem step_assignment (h : m.memory.readWord m.pc = .ok (UInt16.ofNat a.word)) :
    ∃ v, m.step = ⟨{ m.past with v := v }, .ok (.ofWord (UInt16.ofNat a.word))⟩ ∧
      values v = a.apply (values m.v) := by
  have hfetch : m.fetch = .ok (.ofWord (UInt16.ofNat a.word)) := by
    rw [fetch, h]
    rfl
  obtain ⟨v, hexec, hvalues⟩ := execute_assignment m.advance a
  exact ⟨v, step_of_execute hfetch hexec, hvalues⟩

/-- The machine behind `n` instructions in a row that have changed nothing but registers. -/
def behind (m : Machine) (n : Nat) (v : Vector UInt8 16) : Machine :=
  { m with
    v := v
    pc := m.pc + 2 * n
    currentPc := if n = 0 then m.currentPc else m.pc + 2 * n - 2
    cycles := m.cycles + n }

theorem behind_past (m : Machine) (n : Nat) (u v : Vector UInt8 16) :
    { m.past with v := u }.behind n v = m.behind (n + 1) v := by
  simp only [behind, past, Machine.mk.injEq, true_and]
  refine ⟨by omega, ?_, by omega⟩
  rw [if_neg n.succ_ne_zero]
  split
  next hzero => rw [hzero]; omega
  next => omega

/-- A run of as many cycles as the program has instructions goes through the program. -/
theorem run_codeAt (h : m.memory.CodeAt m.pc program) :
    ∃ v, m.run program.length = ⟨m.behind program.length v, .ok ()⟩ ∧
      values v = program.foldl apply (values m.v) := by
  induction program generalizing m with
  | nil => exact ⟨m.v, by simp [run, behind], rfl⟩
  | cons a program ih =>
    obtain ⟨u, hstep, hu⟩ := step_assignment h.head
    obtain ⟨v, hrun, hv⟩ := ih (m := { m.past with v := u }) h.tail
    refine ⟨v, ?_, ?_⟩
    · rw [List.length_cons, run, hstep]
      show run program.length { m.past with v := u } = _
      rw [hrun, behind_past]
    · rw [hv, List.foldl_cons, ← hu]

theorem values_replicate : values (Vector.replicate 16 0) = fun _ => 0 := by
  funext k
  show ((Vector.replicate 16 (0 : UInt8))[k.val]).toNat = 0
  rw [Vector.getElem_replicate]
  rfl

/-- **Assembled programs compute their meaning.**  A program of assignments that fits in a memory can
be loaded, and a run of one cycle for each of its instructions fails nowhere, on a machine with any
screen and keypad.  The registers are then what the assignments make of sixteen zeros, the program
counter is behind the last of them, and nothing else has changed since the machine was made. -/
theorem run_assembled (program : List Assignment) (before : Memory) (screen : Screen)
    (keypad : Keypad) (hroom : Memory.programStart + 2 * program.length ≤ before.size) :
    ∃ loaded, before.load (assemble program) = .ok loaded ∧ ∃ v,
      ({ start loaded screen with keypad := keypad }.run program.length) =
        ⟨{ start loaded screen with
          keypad := keypad
          v := v
          pc := Memory.programStart + 2 * program.length
          currentPc := Memory.programStart + 2 * (program.length - 1 : Nat)
          cycles := program.length }, .ok ()⟩ ∧
      ∀ k, (v.get k).toNat = program.foldl apply (fun _ => 0) k := by
  have hsize : Memory.programStart + (assemble program).length ≤ before.size := by
    rw [length_assemble]
    exact hroom
  obtain ⟨loaded, hload⟩ : ∃ loaded, before.load (assemble program) = .ok loaded :=
    ⟨_, Memory.load_eq_ok_iff.mpr ⟨hsize, rfl⟩⟩
  have hcode : loaded.CodeAt Memory.programStart program :=
    (Memory.HoldsProgram.of_load hload).codeAt hroom
  obtain ⟨v, hrun, hv⟩ := run_codeAt (m := { start loaded screen with keypad := keypad }) hcode
  refine ⟨loaded, hload, v, ?_, ?_⟩
  · have hcurrentPc : (if program.length = 0 then (Memory.programStart : Int)
        else Memory.programStart + 2 * program.length - 2) =
          Memory.programStart + 2 * (program.length - 1 : Nat) := by
      split <;> omega
    rw [hrun]
    simp only [behind, start, hcurrentPc, Nat.zero_add]
  · have hfold : values v = program.foldl apply (values (Vector.replicate 16 0)) := hv
    rw [values_replicate] at hfold
    exact fun k => congrFun hfold k

/-- A sum that wraps in one register, and is then copied to another. -/
def wrappedSum (x y : Fin 16) : List Assignment :=
  [.setByte x 0xFF, .addByte x 2, .copy y x]

/-- With VF and V0, the program runs in a memory that ends behind its last word. -/
theorem run_wrappedSum :
    assemble (wrappedSum 15 0) = [0x6F, 0xFF, 0x7F, 0x02, 0x80, 0xF0] ∧
    Memory.programStart + 2 * (wrappedSum 15 0).length ≤ (Memory.blank 518).size ∧
    ∃ loaded, (Memory.blank 518).load (assemble (wrappedSum 15 0)) = .ok loaded ∧ ∃ v,
      ({ start loaded .standard with keypad := .allUp }.run (wrappedSum 15 0).length) =
        ⟨{ start loaded .standard with
          keypad := .allUp
          v := v
          pc := Memory.programStart + 2 * (wrappedSum 15 0).length
          currentPc := Memory.programStart + 2 * ((wrappedSum 15 0).length - 1 : Nat)
          cycles := (wrappedSum 15 0).length }, .ok ()⟩ ∧
      (v.get 0).toNat = 1 ∧ (v.get 15).toNat = 1 := by
  have hroom : Memory.programStart + 2 * (wrappedSum 15 0).length ≤ (Memory.blank 518).size := by
    rw [Memory.size_blank]
    decide
  obtain ⟨loaded, hload, v, hrun, hv⟩ :=
    run_assembled (wrappedSum 15 0) (Memory.blank 518) .standard .allUp hroom
  refine ⟨by decide, hroom, loaded, hload, v, hrun, ?_, ?_⟩
  · rw [hv]
    decide
  · rw [hv]
    decide

end Machine

end Chip8
