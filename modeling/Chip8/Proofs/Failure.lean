import Chip8.Proofs.OpcodeTable
import Chip8.Window.Event

/-!
# Failing steps

When a step fails, for which reason, and what it leaves behind.

The reasons come in two layers: `Machine.Refuses` lists those for which an instruction that has been
fetched is not executed, and `Machine.Fails` adds the one for which nothing can be fetched.  Each
operation of the machine has a lemma that says when it fails and that it then leaves the machine
alone; the lemmas about instructions and steps are put together from these.

The main results are:

* `Machine.step_fails_iff` — a step fails exactly for the listed reasons.  In a memory that a
  program can address, each of them is one of the console's own diagnostics, which the window reports.
* `Machine.failing_step_atomic` — a failing step changes nothing but the program counter and the
  address that it notes, and a machine that cannot fetch an instruction is stuck for good.
-/

namespace Chip8.Machine

/-! ## The reasons -/

/-- The reasons for which a machine does not execute an instruction that it has fetched. -/
inductive Refuses (m : Machine) (ins : Instruction) : Fault → Prop
  | unknownOpcode (h : ins.mnemonic = none) : Refuses m ins (.unknownOpcode m.pc ins.opcode)
  | unsupportedOpcode (mnemonic : Mnemonic) (h : ins.mnemonic = some mnemonic)
      (unsupported : mnemonic.supported = false) :
      Refuses m ins (.unsupportedOpcode m.pc ins.opcode mnemonic)
  | stackUnderflow (h : ins.mnemonic = some .ret) (empty : m.stack.depth = 0) :
      Refuses m ins (.stackUnderflow m.pc ins.opcode)
  | stackOverflow (h : ins.mnemonic = some .call) (full : m.stack.depth = 16) :
      Refuses m ins (.stackOverflow m.pc ins.opcode)
  | returnAddress (h : ins.mnemonic = some .call) (room : m.stack.depth < 16)
      (far : 65535 < m.pc + 2) : Refuses m ins (.returnAddress (m.pc + 2))
  | sprite (h : ins.mnemonic = some .drw)
      (outside : m.i < 0 ∨ (m.memory.size : Int) < m.i + ins.n.val) :
      Refuses m ins (.outOfBounds ⟨m.i, ins.n.val⟩)
  | digits (h : ins.mnemonic = some .ldDigits)
      (outside : m.i < 0 ∨ (m.memory.size : Int) < m.i + 3) :
      Refuses m ins (.outOfBounds ⟨m.i, 3⟩)
  | registers (h : ins.mnemonic = some .load)
      (outside : m.i < 0 ∨ (m.memory.size : Int) < m.i + (ins.x.val + 1)) :
      Refuses m ins (.outOfBounds ⟨m.i, ins.x.val + 1⟩)
  | key (h : ins.mnemonic = some .sknp) (beyond : 15 < (m.v.get ins.x).toNat) :
      Refuses m ins (.noSuchKey m.pc ins.opcode (m.v.get ins.x))

/-- The reasons for which a step fails: the word lies outside memory, or the instruction that it
stands for is refused. -/
inductive Fails (m : Machine) : Fault → Prop
  | fetch (outside : m.pc < 0 ∨ (m.memory.size : Int) < m.pc + 2) :
      Fails m (.outOfBounds ⟨m.pc, 2⟩)
  | refused {fault : Fault} (inside : 0 ≤ m.pc ∧ m.pc + 2 ≤ m.memory.size)
      (h : m.Refuses (.decode m.word) fault) : Fails m fault

/-! ## Operations

An operation that fails has checked everything before it changes the machine, so it leaves the
machine as it was. -/

variable {m next : Machine} {ins : Instruction} {fault : Fault}

/-- An operation that makes one check fails if and only if the check does. -/
theorem check_error_iff {condition : Prop} [Decidable condition] {done : Machine} {e : Fault} :
    (if condition then EStateM.Result.ok () done else .error e m) = .error fault next ↔
      next = m ∧ ¬ condition ∧ fault = e := by
  by_cases h : condition
  · simp [h]
  · simp [h, eq_comm, and_comm]

theorem returnFrom_error_iff {word : UInt16} :
    (returnFrom word).run m = .error fault next ↔
      next = m ∧ m.stack.depth = 0 ∧ fault = .stackUnderflow m.currentPc word := by
  rw [run_returnFrom, ← CallStack.pop?_eq_none_iff]
  cases m.stack.pop? <;> simp [eq_comm, and_comm]

theorem callTo_error_iff {word : UInt16} {address : Fin 4096} :
    (callTo word address).run m = .error fault next ↔
      next = m ∧
        (m.stack.depth = CallStack.capacity ∧ fault = .stackOverflow m.currentPc word ∨
          ¬ m.stack.depth = CallStack.capacity ∧ ¬ (0 ≤ m.pc ∧ m.pc < 65536) ∧
            fault = .returnAddress m.pc) := by
  rw [run_callTo, ← CallStack.push?_eq_none_iff _ (UInt16.ofInt m.pc)]
  cases m.stack.push? (UInt16.ofInt m.pc) with
  | none => simp [eq_comm, and_comm]
  | some stack => simp [check_error_iff]

theorem drawSprite_error_iff {x y n : Fin 16} :
    (drawSprite x y n).run m = .error fault next ↔
      next = m ∧ ¬ m.memory.InBounds m.i n.val ∧ fault = .outOfBounds ⟨m.i, n.val⟩ := by
  rw [run_drawSprite]
  exact check_error_iff

theorem storeDigits_error_iff {x : Fin 16} :
    (storeDigits x).run m = .error fault next ↔
      next = m ∧ ¬ m.memory.InBounds m.i 3 ∧ fault = .outOfBounds ⟨m.i, 3⟩ := by
  rw [run_storeDigits]
  exact check_error_iff

theorem loadRegisters_error_iff {x : Fin 16} :
    (loadRegisters x).run m = .error fault next ↔
      next = m ∧ ¬ m.memory.InBounds m.i (x.val + 1) ∧
        fault = .outOfBounds ⟨m.i, x.val + 1⟩ := by
  rw [run_loadRegisters]
  exact check_error_iff

theorem skipUnlessDown_error_iff {word : UInt16} {x : Fin 16} :
    (skipUnlessDown word x).run m = .error fault next ↔
      next = m ∧ 15 < (m.v.get x).toNat ∧ fault = .noSuchKey m.currentPc word (m.v.get x) := by
  rw [run_skipUnlessDown]
  by_cases h : (m.v.get x).toNat < 16
  · rw [dif_pos h]
    have hle : ¬ 15 < (m.v.get x).toNat := by omega
    simp only [hle, reduceCtorEq, false_and, and_false]
  · rw [dif_neg h]
    have hgt : 15 < (m.v.get x).toNat := by omega
    simp only [EStateM.Result.error.injEq, hgt, true_and, eq_comm, and_comm]

/-! ## Instructions -/

theorem skipIf_ne_error {condition : Bool} : (skipIf condition).run m ≠ .error fault next := by
  intro h
  rw [run_skipIf] at h
  cases h

/-- An instruction that fails leaves the machine as it was fetched. -/
theorem refuses_of_execute (hpc : 0 ≤ m.pc) (h : (execute ins).run m.advance = .error fault next) :
    next = m.advance ∧ m.Refuses ins fault := by
  rw [execute, Exec.run_get_bind] at h
  cases hk : ins.mnemonic with
  | none =>
    rw [hk] at h
    cases h
    exact ⟨rfl, .unknownOpcode hk⟩
  | some mnemonic =>
    rw [hk] at h
    cases mnemonic with
    | ret =>
      obtain ⟨hnext, hempty, rfl⟩ := returnFrom_error_iff.mp h
      exact ⟨hnext, .stackUnderflow hk hempty⟩
    | call =>
      obtain ⟨hnext, ⟨hfull, rfl⟩ | ⟨hroom, hfar, rfl⟩⟩ := callTo_error_iff.mp h
      · exact ⟨hnext, .stackOverflow hk hfull⟩
      · have hlt : m.stack.depth < CallStack.capacity :=
          Nat.lt_of_le_of_ne m.stack.depth_le hroom
        -- The program counter was not negative, so the return address can only be too large.
        have hgt : 65535 < m.pc + 2 := by
          simp only [advance] at hfar
          omega
        exact ⟨hnext, .returnAddress hk hlt hgt⟩
    | drw =>
      obtain ⟨hnext, houtside, rfl⟩ := drawSprite_error_iff.mp h
      exact ⟨hnext, .sprite hk ((Memory.not_inBounds_iff _ _ _).mp houtside)⟩
    | sknp =>
      obtain ⟨hnext, hbeyond, rfl⟩ := skipUnlessDown_error_iff.mp h
      exact ⟨hnext, .key hk hbeyond⟩
    | ldDigits =>
      obtain ⟨hnext, houtside, rfl⟩ := storeDigits_error_iff.mp h
      exact ⟨hnext, .digits hk ((Memory.not_inBounds_iff _ _ 3).mp houtside)⟩
    | load =>
      obtain ⟨hnext, houtside, rfl⟩ := loadRegisters_error_iff.mp h
      exact ⟨hnext, .registers hk ((Memory.not_inBounds_iff _ _ (ins.x.val + 1)).mp houtside)⟩
    | seByte | sneByte | seReg | sneReg => exact absurd h skipIf_ne_error
    | cls | jp | ldByte | addByte | ldReg | ldI | ldFromDelay | ldDelay | addI | ldGlyph => cases h
    | or | and | xor | addReg | sub | shr | subn | shl | jpV0 | rnd | skp | waitKey | ldSound
    | store =>
      cases h
      exact ⟨rfl, .unsupportedOpcode _ hk rfl⟩

theorem execute_of_refuses (h : m.Refuses ins fault) :
    (execute ins).run m.advance = .error fault m.advance := by
  rw [execute, Exec.run_get_bind]
  cases h with
  | unknownOpcode hk =>
    rw [hk]
    rfl
  | unsupportedOpcode mnemonic hk unsupported =>
    rw [hk]
    cases mnemonic with
    | or | and | xor | addReg | sub | shr | subn | shl | jpV0 | rnd | skp | waitKey | ldSound
    | store => rfl
    | _ => cases unsupported
  | stackUnderflow hk empty =>
    rw [hk]
    exact returnFrom_error_iff.mpr ⟨rfl, empty, rfl⟩
  | stackOverflow hk full =>
    rw [hk]
    exact callTo_error_iff.mpr ⟨rfl, .inl ⟨full, rfl⟩⟩
  | returnAddress hk room far =>
    rw [hk]
    have hfar : ¬ (0 ≤ m.advance.pc ∧ m.advance.pc < 65536) := by
      simp only [advance]
      omega
    exact callTo_error_iff.mpr ⟨rfl, .inr ⟨Nat.ne_of_lt room, hfar, rfl⟩⟩
  | sprite hk outside =>
    rw [hk]
    exact drawSprite_error_iff.mpr ⟨rfl, (Memory.not_inBounds_iff _ _ _).mpr outside, rfl⟩
  | digits hk outside =>
    rw [hk]
    exact storeDigits_error_iff.mpr ⟨rfl, (Memory.not_inBounds_iff _ _ 3).mpr outside, rfl⟩
  | registers hk outside =>
    rw [hk]
    exact loadRegisters_error_iff.mpr
      ⟨rfl, (Memory.not_inBounds_iff _ _ (ins.x.val + 1)).mpr outside, rfl⟩
  | key hk beyond =>
    rw [hk]
    exact skipUnlessDown_error_iff.mpr ⟨rfl, beyond, rfl⟩

/-! ## Steps -/

/-- What a failing step leaves behind: it has noted the address of the instruction, and moved past
it if there is one. -/
def afterFailure (m : Machine) : Machine :=
  { m with currentPc := m.pc, pc := if m.memory.InBounds m.pc 2 then m.pc + 2 else m.pc }

theorem fails_of_step (h : m.step.result = .error fault) : m.Fails fault := by
  rw [step_eq, fetch_eq] at h
  by_cases hrange : m.memory.InBounds m.pc 2
  · rw [if_pos hrange] at h
    cases hexec : (execute (.ofWord (UInt16.ofNat m.word))).run m.advance with
    | ok u next => simp only [hexec, reduceCtorEq] at h
    | error refused next =>
      simp only [hexec] at h
      cases h
      obtain ⟨-, hrefuses⟩ := refuses_of_execute hrange.1 hexec
      rw [← Instruction.decode_natCast] at hrefuses
      exact .refused ⟨hrange.1, hrange.2.2⟩ hrefuses
  · rw [if_neg hrange] at h
    cases h
    exact .fetch ((Memory.not_inBounds_iff _ _ 2).mp hrange)

theorem step_of_fails (h : m.Fails fault) : m.step = ⟨m.afterFailure, .error fault⟩ := by
  rw [step_eq, fetch_eq]
  cases h with
  | fetch outside =>
    have hrange : ¬ m.memory.InBounds m.pc 2 := (Memory.not_inBounds_iff _ _ 2).mpr outside
    rw [if_neg hrange, afterFailure, if_neg hrange]
  | refused inside hrefuses =>
    have hrange : m.memory.InBounds m.pc 2 := ⟨inside.1, by decide, inside.2⟩
    rw [Instruction.decode_natCast] at hrefuses
    rw [if_pos hrange, afterFailure, if_pos hrange]
    simp only [execute_of_refuses hrefuses]
    rfl

theorem step_error_iff : m.step.result = .error fault ↔ m.Fails fault := by
  constructor
  · exact fails_of_step
  · intro h
    rw [step_of_fails h]

/-- A step completes unless there is a reason to fail. -/
theorem step_ok_iff : (∃ ins, m.step.result = .ok ins) ↔ ∀ fault, ¬ m.Fails fault := by
  constructor
  · rintro ⟨ins, hok⟩ fault hfails
    rw [step_of_fails hfails] at hok
    cases hok
  · intro hnone
    cases hresult : m.step.result with
    | ok ins => exact ⟨ins, rfl⟩
    | error fault => exact absurd (fails_of_step hresult) (hnone fault)

/-- The reasons for failing, by what the fetch brings. -/
theorem fails_iff : m.Fails fault ↔
    (∃ ins, m.fetch = .ok ins ∧ m.Refuses ins fault) ∨
      ∃ access, m.fetch = .error access ∧ fault = .outOfBounds access := by
  rw [fetch_eq]
  by_cases hrange : m.memory.InBounds m.pc 2
  · simp only [if_pos hrange, ← Instruction.decode_natCast]
    constructor
    · rintro (houtside | ⟨-, hrefuses⟩)
      · exact absurd hrange ((Memory.not_inBounds_iff _ _ 2).mpr houtside)
      · exact .inl ⟨_, rfl, hrefuses⟩
    · rintro (⟨ins, hins, hrefuses⟩ | ⟨access, haccess, -⟩)
      · cases hins
        exact .refused ⟨hrange.1, hrange.2.2⟩ hrefuses
      · cases haccess
  · simp only [if_neg hrange]
    constructor
    · rintro (houtside | ⟨hinside, -⟩)
      · exact .inr ⟨_, rfl, rfl⟩
      · exact absurd ⟨hinside.1, by decide, hinside.2⟩ hrange
    · rintro (⟨ins, hins, -⟩ | ⟨access, haccess, rfl⟩)
      · cases hins
      · cases haccess
        exact .fetch ((Memory.not_inBounds_iff _ _ 2).mp hrange)

/-! ## The window -/

/-- In a memory that a program can address, no return address is too large for its slot, and every
other fault is one of the console's own. -/
theorem exists_diagnostic (hsize : m.memory.size ≤ 65535) (h : m.Fails fault) :
    ∃ d, fault.diagnostic? = some d := by
  cases h with
  | fetch outside => exact ⟨_, rfl⟩
  | refused inside hrefuses =>
    cases hrefuses with
    | returnAddress hk room far => omega
    | _ => exact ⟨_, rfl⟩

end Chip8.Machine

namespace Chip8.Window

/-- A halt reports the diagnostic, and lets no fault of the machine through. -/
theorem halt_reports (w : Window) (d : Diagnostic) :
    (w.halt d).window.failed = true ∧ .emulationError d ∈ (w.halt d).notices ∧
      ∀ fault, (w.halt d).unhandled ≠ some (.fault fault) := by
  unfold halt
  by_cases hon : w.session.logger.on = true
  · simp only [hon, if_true]
    cases haltDump w.session.machine with
    | ok dump =>
      refine ⟨rfl, List.mem_cons_self, ?_⟩
      rintro fault ⟨⟩
    | error e =>
      refine ⟨rfl, List.mem_cons_self, ?_⟩
      rintro fault ⟨⟩
  · simp only [hon]
    refine ⟨rfl, List.mem_cons_self, ?_⟩
    rintro fault ⟨⟩

/-- A tick that meets one of the console's own failures halts the program. -/
theorem cpuTick_reports {w : Window} {fault : Fault} {d : Diagnostic}
    (hfault : w.session.machine.step.result = .error fault) (hd : fault.diagnostic? = some d) :
    w.cpuTick.window.failed = true ∧ .emulationError d ∈ w.cpuTick.notices ∧
      w.cpuTick.unhandled ≠ some (.fault fault) := by
  have hresult : (w.session.perform (.act .step)).result = .error (.fault fault) := by
    simp only [Session.perform_act, Machine.perform, hfault]
    rfl
  have hdiagnostic : (ActionError.fault fault).diagnostic? = some d := hd
  unfold cpuTick
  simp only [hresult, hdiagnostic]
  obtain ⟨hfailed, hmem, hunhandled⟩ :=
    halt_reports { w with session := (w.session.perform (.act .step)).session } d
  exact ⟨hfailed, List.mem_append_right _ hmem, hunhandled fault⟩

end Chip8.Window

namespace Chip8.Machine

variable {m next : Machine} {fault : Fault}

/-- **When steps fail.**  A step fails for the listed reasons and completes without one.  In a
memory that a program can address, each reason is one of the console's own diagnostics; a window
that meets it halts, reports it and lets nothing of it through to its host. -/
theorem step_fails_iff (m : Machine) :
    (∀ fault, m.step.result = .error fault ↔ m.Fails fault) ∧
      ((∃ ins, m.step.result = .ok ins) ↔ ∀ fault, ¬ m.Fails fault) ∧
      (m.memory.size ≤ 65535 → ∀ fault, m.step.result = .error fault →
        ∃ d, fault.diagnostic? = some d ∧
          ∀ w : Window, w.session.machine = m →
            w.cpuTick.window.failed = true ∧ .emulationError d ∈ w.cpuTick.notices ∧
              w.cpuTick.unhandled ≠ some (.fault fault)) := by
  refine ⟨fun fault => step_error_iff, step_ok_iff, ?_⟩
  intro hsize fault hfault
  obtain ⟨d, hd⟩ := exists_diagnostic hsize (fails_of_step hfault)
  refine ⟨d, hd, ?_⟩
  rintro w rfl
  exact Window.cpuTick_reports hfault hd

/-- A machine that is about to return without a call. -/
def returnFirst : Machine :=
  { start ⟨#[0x00, 0xEE]⟩ .standard with pc := 0 }

theorem returnFirst_fails :
    returnFirst.step.result = .error (.stackUnderflow 0 0x00EE) ∧
      ∃ d, (Fault.stackUnderflow 0 0x00EE).diagnostic? = some d ∧
        ∀ w : Window, w.session.machine = returnFirst →
          w.cpuTick.window.failed = true ∧ .emulationError d ∈ w.cpuTick.notices ∧
            w.cpuTick.unhandled ≠ some (.fault (.stackUnderflow 0 0x00EE)) := by
  obtain ⟨hiff, -, hwindow⟩ := step_fails_iff returnFirst
  have hfails : returnFirst.Fails (.stackUnderflow 0 0x00EE) :=
    .refused (by decide) (.stackUnderflow (by decide) rfl)
  have h := (hiff _).mpr hfails
  exact ⟨h, hwindow (by decide) _ h⟩

/-! ## Machines that cannot fetch

Only the program counter and the size of the memory decide whether a word can be fetched, and no
action but a step that completes changes one of them. -/

/-- No word can be fetched at the program counter, and a step has tried it. -/
structure StuckAt (pc : Int) (m : Machine) : Prop where
  pc_eq : m.pc = pc
  tried : m.currentPc = pc
  outside : ¬ m.memory.InBounds pc 2

variable {pc : Int}

theorem StuckAt.step (h : m.StuckAt pc) :
    m.step = ⟨m, .error (.outOfBounds ⟨pc, 2⟩)⟩ := by
  obtain ⟨rfl, htried, houtside⟩ := h
  have hafter : m.afterFailure = m := by
    rw [afterFailure, if_neg houtside]
    exact congrArg (fun address => { m with currentPc := address }) htried.symm
  rw [step_of_fails (.fetch ((Memory.not_inBounds_iff _ _ 2).mp houtside)), hafter]

theorem StuckAt.run_machine (h : m.StuckAt pc) (n : Nat) : (m.run n).machine = m := by
  cases n with
  | zero => rfl
  | succ n => rw [run, h.step]

theorem StuckAt.of_undisturbed (h : m.StuckAt pc) (hsame : m.Undisturbed next) :
    next.StuckAt pc where
  pc_eq := hsame.pc.trans h.pc_eq
  tried := hsame.currentPc.trans h.tried
  outside := by
    rw [Memory.inBounds_congr hsame.memory]
    exact h.outside

theorem StuckAt.perform (h : m.StuckAt pc) (action : Action) :
    (m.perform action).machine.StuckAt pc := by
  rcases m.perform_cases action with rfl | ⟨n, rfl⟩ | hsame
  · have hmachine : (m.perform .step).machine = m := congrArg Outcome.machine h.step
    rw [hmachine]
    exact h
  · have hmachine : (m.perform (.run n)).machine = m := h.run_machine n
    rw [hmachine]
    exact h
  · exact h.of_undisturbed hsame

theorem StuckAt.after (h : m.StuckAt pc) (actions : List Action) :
    (m.after actions).StuckAt pc := by
  induction actions generalizing m with
  | nil => exact h
  | cons action actions ih =>
    rw [after_cons]
    exact ih (h.perform action)

/-- **Failing steps are atomic.**  A failing step has noted the address of the instruction and, if
there is an instruction, moved past it; all else is as before.  If there is none, then no sequence
of actions gets the machine going again: each later step fails in the same way and changes nothing. -/
theorem failing_step_atomic (h : m.step.result = .error fault) :
    m.step.machine =
        { m with currentPc := m.pc, pc := if m.memory.InBounds m.pc 2 then m.pc + 2 else m.pc } ∧
      (¬ m.memory.InBounds m.pc 2 → ∀ actions : List Action,
        (m.step.machine.after actions).step = ⟨m.step.machine.after actions, .error fault⟩) := by
  have hstep := step_of_fails (fails_of_step h)
  refine ⟨congrArg Outcome.machine hstep, ?_⟩
  intro houtside actions
  have hmachine : m.step.machine = { m with currentPc := m.pc } := by
    rw [hstep, afterFailure, if_neg houtside]
  have hfault : fault = .outOfBounds ⟨m.pc, 2⟩ := by
    rw [step_eq, fetch_eq, if_neg houtside] at h
    exact (Except.error.inj h).symm
  have hstuck : m.step.machine.StuckAt m.pc := by
    rw [hmachine]
    exact ⟨rfl, rfl, houtside⟩
  rw [hfault]
  exact (hstuck.after actions).step

/-- A machine with a single byte of memory. -/
def oneByte : Machine :=
  start ⟨#[0x00]⟩ .standard

theorem oneByte_stays_stuck :
    oneByte.step.result = .error (.outOfBounds ⟨512, 2⟩) ∧
      (oneByte.step.machine.after [.press 5, .tick, .run 3, .write 0 [7]]).step =
        ⟨oneByte.step.machine.after [.press 5, .tick, .run 3, .write 0 [7]],
          .error (.outOfBounds ⟨512, 2⟩)⟩ := by
  have h : oneByte.step.result = .error (.outOfBounds ⟨512, 2⟩) :=
    step_error_iff.mpr (.fetch (by decide))
  obtain ⟨-, hstuck⟩ := failing_step_atomic h
  exact ⟨h, hstuck (by decide) _⟩

end Chip8.Machine
