import Chip8.Proofs.Events
import Chip8.Proofs.HexDump

/-!
# The dump of a halt

A halt shows the thirty-two bytes that begin at the line of the failed instruction.  Near the end of
memory they begin earlier, so that they end with it, and below zero they begin at zero; the size of
the memory need not be a multiple of anything.  Wherever the instruction is, these bytes lie inside
every memory that has as many (`Window.inBounds_haltStart`), so a halt always gets to its end.

Moving the start down never loses the instruction: the line begins no more than fifteen bytes before
it, and a range that ends with the memory has all that follows (`Window.haltStart_le`,
`Window.lt_haltStart_add`).

The main result is `Window.halt_shows_culprit`.
-/

namespace Chip8.Window

open Memory

variable {w : Window} {m : Machine} {a : Nat}

/-! ## The range -/

theorem haltStart_nonneg (m : Machine) : 0 ≤ haltStart m :=
  Int.le_max_left _ _

/-- The range begins no later than at the instruction. -/
theorem haltStart_le (h : m.currentPc ≤ a) : haltStart m ≤ a := by
  have hline : m.currentPc - m.currentPc % 16 ≤ a := by omega
  exact max_le (Int.natCast_nonneg a) ((min_le_left _ _).trans hline)

/-- The range ends behind both bytes of the instruction, or with the memory. -/
theorem lt_haltStart_add (h : a ≤ m.currentPc + 1) (hsize : a < m.memory.size) :
    a < haltStart m + haltLength := by
  have hline : (a : Int) - haltLength < m.currentPc - m.currentPc % 16 := by
    unfold haltLength
    omega
  have hend : (a : Int) - haltLength < m.memory.size - haltLength := by omega
  have hstart : (a : Int) - haltLength < haltStart m :=
    (lt_min hline hend).trans_le (le_max_right _ _)
  omega

/-! ## The dump -/

/-- A dump of thirty-two bytes inside a memory, the two bytes at an address among them as far as the
memory has them. -/
structure ShowsInstruction (memory : Memory) (pc : Int) (start : Nat) (dump : String) : Prop where
  inside : start + 32 ≤ memory.size
  shown : readDump dump = (memory.slice start 32).zipIdx start
  culprit : ∀ a : Nat, a < memory.size → (a : Int) = pc ∨ (a : Int) = pc + 1 →
    start ≤ a ∧ a < start + 32 ∧ (memory.byte a, a) ∈ readDump dump

/-- The bytes of a range stand at their addresses. -/
theorem mem_zipIdx_slice (memory : Memory) {start length : Nat} (hlow : start ≤ a)
    (hhigh : a < start + length) : (memory.byte a, a) ∈ (memory.slice start length).zipIdx start := by
  have hplace : a - start < length := by omega
  have hbyte : start + (a - start) = a := by omega
  rw [List.mk_mem_zipIdx_iff_le_and_getElem?_sub]
  refine ⟨hlow, ?_⟩
  simp [slice, List.getElem?_range hplace, hbyte]

/-- The dump of a halt shows the instruction, if the memory has as many bytes. -/
theorem showsInstruction_dumpText (h : haltLength ≤ m.memory.size) {start : Nat}
    (hstart : haltStart m = start) :
    ShowsInstruction m.memory m.currentPc start
      (dumpText dumpWidth start (m.memory.slice start haltLength)) := by
  have hinside := (inBounds_haltStart h).add_le
  have hread : readDump (dumpText dumpWidth start (m.memory.slice start haltLength)) =
      (m.memory.slice start haltLength).zipIdx start :=
    readDump_dumpText (by decide) start _
  rw [hstart, Int.toNat_natCast] at hinside
  refine ⟨hinside, hread, fun a hsize ha => ?_⟩
  have hlow : start ≤ a := by
    have hle : haltStart m ≤ a := haltStart_le (by omega)
    omega
  have hhigh : a < start + haltLength := by
    have hlt : (a : Int) < haltStart m + haltLength := lt_haltStart_add (by omega) hsize
    omega
  refine ⟨hlow, hhigh, ?_⟩
  rw [hread]
  exact mem_zipIdx_slice m.memory hlow hhigh

/-- In a memory that has as many bytes, a halt can make its dump. -/
theorem haltDump_showsInstruction (h : haltLength ≤ m.memory.size) :
    ∃ (start : Nat) (dump : String), haltStart m = start ∧ haltDump m = .ok dump ∧
      ShowsInstruction m.memory m.currentPc start dump := by
  obtain ⟨start, hstart⟩ := Int.eq_ofNat_of_zero_le (haltStart_nonneg m)
  have hdump : haltDump m = .ok (dumpText dumpWidth start (m.memory.slice start haltLength)) := by
    rw [haltDump, dump_of_inBounds (inBounds_haltStart h) (by decide), hstart, Int.toNat_natCast,
      Int.toNat_natCast]
  exact ⟨start, _, hstart, hdump, showsInstruction_dumpText h hstart⟩

/-! ## The halt -/

/-- A step that fails leaves the memory as it was, and has noted where the instruction is. -/
theorem machine_of_failed_step {fault : Fault} (h : m.step.result = .error fault) :
    m.step.machine.memory = m.memory ∧ m.step.machine.currentPc = m.pc := by
  rw [Machine.step_of_fails (Machine.fails_of_step h)]
  exact ⟨rfl, rfl⟩

/-- A reaction that has halted the program on a failure: nothing is left to the host and nothing
scheduled, and with tracing on the registers and a dump are written behind the diagnostic. -/
structure HaltsWith (r : Reaction) (l : Logger) (d : Diagnostic) (registers dump : String)
    (traced : List Notice) : Prop where
  handled : r.unhandled = none
  unscheduled : r.window.scheduled = []
  notices : r.notices =
    traced ++ .emulationError d :: logged (l.logAll fun _ => [registers, dump])

/-- **A halt shows the culprit.**  In every memory with room for its dump, a halt gets to its end,
wherever the failed instruction is: nothing is thrown on the way, the tasks are unscheduled, and the
dump, which tracing writes, shows thirty-two bytes inside the memory, those of the instruction among
them.  So each failure of the console's own that a tick meets is shown at the address at which the
instruction was to be fetched. -/
theorem halt_shows_culprit (h : 32 ≤ w.session.machine.memory.size) :
    (∃ (start : Nat) (dump : String), haltStart w.session.machine = start ∧
      ShowsInstruction w.session.machine.memory w.session.machine.currentPc start dump ∧
      ∀ d, HaltsWith (w.halt d) w.session.logger d w.session.machine.registers dump []) ∧
    ∀ (fault : Fault) (d : Diagnostic), w.session.machine.step.result = .error fault →
      fault.diagnostic? = some d → ∃ (start : Nat) (dump : String),
        ShowsInstruction w.session.machine.memory w.session.machine.pc start dump ∧
        HaltsWith w.cpuTick w.session.logger d w.session.machine.step.machine.registers dump
          w.stepTrace := by
  constructor
  · obtain ⟨start, dump, hstart, hdump, hshows⟩ := haltDump_showsInstruction h
    refine ⟨start, dump, hstart, hshows, fun d => ?_⟩
    rw [halt_eq hdump d]
    exact ⟨rfl, rfl, rfl⟩
  · intro fault d hfault hd
    obtain ⟨hmemory, hpc⟩ := machine_of_failed_step hfault
    have hroom : haltLength ≤ w.session.machine.step.machine.memory.size := by
      rw [hmemory]
      exact h
    obtain ⟨start, dump, -, hdump, hshows⟩ := haltDump_showsInstruction hroom
    rw [hmemory, hpc] at hshows
    refine ⟨start, dump, hshows, ?_⟩
    rw [cpuTick_of_diagnostic hfault hd hdump]
    exact ⟨rfl, rfl, rfl⟩

/-- A memory that ends in the middle of an instruction, one byte longer than a dump. -/
def tightMemory : Memory :=
  (blank 33).overwrite 32 [0x12]

/-- A machine that is about to fetch that instruction. -/
def tightMachine : Machine :=
  { Machine.start tightMemory .standard with pc := 32 }

/-- A window that runs that machine, with tracing on. -/
def tightWindow : Window where
  keyboard := .standard
  session := ⟨tightMachine, (Logger.initial false).setLogs true⟩
  scale := 1
  image := tightMachine.screen.imageAt 1
  scheduled := [(.cpu, 1.0), (.timer, 1.0)]
  failed := false

/-- The instruction cannot be fetched, and the dump shows the one byte that there is of it. -/
theorem tightWindow_shows_culprit :
    32 ≤ tightMemory.size ∧
      tightMachine.step.result = .error (.outOfBounds ⟨32, 2⟩) ∧
      ∃ dump, HaltsWith tightWindow.cpuTick tightWindow.session.logger (.address 32 2)
          tightMachine.step.machine.registers dump tightWindow.stepTrace ∧
        (0x12, 32) ∈ readDump dump := by
  have hsize : 32 ≤ tightMemory.size := by decide
  have hfault : tightMachine.step.result = .error (.outOfBounds ⟨32, 2⟩) :=
    Machine.step_error_iff.mpr (.fetch (by decide))
  obtain ⟨-, hticks⟩ := halt_shows_culprit (w := tightWindow) hsize
  obtain ⟨start, dump, hshows, hhalts⟩ := hticks _ _ hfault rfl
  exact ⟨hsize, hfault, dump, hhalts, (hshows.culprit 32 (by decide) (.inl rfl)).2.2⟩

end Chip8.Window
