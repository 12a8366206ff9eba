import Chip8.Machine.Action
import Chip8.Proofs.OpcodeTable

/-!
# What instructions and hosts leave alone

An instruction that completes writes to a few parts of the machine, and which these are follows from
its operation alone (`Machine.Frame`).  Only calls and returns touch the stack, only two operations
touch the screen, one touches memory and one the delay; no instruction touches the keypad.

Laws about whole runs need no more of most instructions than that they leave a part alone, so they
rest on `Machine.frame_of_step` and on the few operations that do write there.  What a host does
between steps and runs leaves the program undisturbed, and changes few of the other parts
(`Machine.hostFrame_of_perform`).
-/

namespace Chip8

namespace Instruction

/-- Whether the instruction writes to the screen when it completes. -/
def paints (ins : Instruction) : Bool :=
  ins.mnemonic == some .cls || ins.mnemonic == some .drw

theorem paints_iff (ins : Instruction) :
    ins.paints = true ↔ ins.mnemonic = some .cls ∨ ins.mnemonic = some .drw := by
  simp [paints]

end Instruction

namespace Machine

/-- The parts that an instruction leaves alone, by its operation. -/
structure Frame (ins : Instruction) (m next : Machine) : Prop where
  stack : ins.mnemonic ≠ some .call → ins.mnemonic ≠ some .ret → next.stack = m.stack
  screen : ins.paints = false → next.screen = m.screen
  memory : ins.mnemonic ≠ some .ldDigits → next.memory = m.memory
  delay : ins.mnemonic ≠ some .ldDelay → next.delay = m.delay
  keypad : next.keypad = m.keypad

variable {m next : Machine} {ins : Instruction} {w : UInt16} {x y n : Fin 16}

/-! ## Operations -/

@[simp] theorem stack_setV (x : Fin 16) (value : UInt8) : (m.setV x value).stack = m.stack := rfl

@[simp] theorem screen_setV (x : Fin 16) (value : UInt8) : (m.setV x value).screen = m.screen := rfl

@[simp] theorem memory_setV (x : Fin 16) (value : UInt8) : (m.setV x value).memory = m.memory := rfl

@[simp] theorem delay_setV (x : Fin 16) (value : UInt8) : (m.setV x value).delay = m.delay := rfl

@[simp] theorem keypad_setV (x : Fin 16) (value : UInt8) : (m.setV x value).keypad = m.keypad := rfl

/-- Setting a register sets it and no other. -/
theorem get_setV (m : Machine) (x y : Fin 16) (value : UInt8) :
    (m.setV x value).v.get y = if x = y then value else m.v.get y := by
  show (m.v.set x.val value x.isLt)[y.val] = if x = y then value else m.v[y.val]
  rw [Vector.getElem_set]
  simp only [Fin.ext_iff]

/-- A return takes the latest frame off the stack and continues there; nothing else changes. -/
theorem ok_of_returnFrom (h : (returnFrom w).run m = .ok () next) :
    ∃ address stack, m.stack.pop? = some (address, stack) ∧
      next = { m with stack := stack, pc := address.toNat } := by
  rw [run_returnFrom] at h
  cases hpop : m.stack.pop? with
  | none => simp [hpop] at h
  | some top =>
    obtain ⟨address, stack⟩ := top
    simp only [hpop] at h
    cases h
    exact ⟨address, stack, rfl, rfl⟩

/-- A call puts the program counter on the stack, which it fits in; nothing else changes. -/
theorem ok_of_callTo {address : Fin 4096} (h : (callTo w address).run m = .ok () next) :
    (0 ≤ m.pc ∧ m.pc < 65536) ∧ ∃ stack, m.stack.push? (UInt16.ofInt m.pc) = some stack ∧
      next = { m with stack := stack, pc := address.val } := by
  rw [run_callTo] at h
  cases hpush : m.stack.push? (UInt16.ofInt m.pc) with
  | none => simp [hpush] at h
  | some stack =>
    simp only [hpush] at h
    split at h
    next hrange =>
      cases h
      exact ⟨hrange, stack, rfl, rfl⟩
    next => cases h

/-- A sprite changes the screen and VF. -/
theorem ok_of_drawSprite (h : (drawSprite x y n).run m = .ok () next) :
    ∃ screen hit,
      m.screen.draw (m.v.get x).toNat (m.v.get y).toNat (m.memory.slice m.i.toNat n.val) =
        (screen, hit) ∧
      next = { m with screen := screen }.setV 15 (if hit then 1 else 0) := by
  rw [run_drawSprite] at h
  split at h
  next =>
    cases h
    exact ⟨_, _, rfl, rfl⟩
  next => cases h

theorem ok_of_skipIf {condition : Bool} (h : (skipIf condition).run m = .ok () next) :
    ∃ pc, next = { m with pc := pc } := by
  rw [run_skipIf] at h
  cases h
  cases condition
  · exact ⟨m.pc, rfl⟩
  · exact ⟨m.pc + 2, rfl⟩

theorem ok_of_skipUnlessDown (h : (skipUnlessDown w x).run m = .ok () next) :
    ∃ pc, next = { m with pc := pc } := by
  rw [run_skipUnlessDown] at h
  split at h
  next hkey =>
    cases h
    cases m.keypad.holds ⟨(m.v.get x).toNat, hkey⟩
    · exact ⟨m.pc + 2, rfl⟩
    · exact ⟨m.pc, rfl⟩
  next => cases h

theorem ok_of_storeDigits (h : (storeDigits x).run m = .ok () next) :
    ∃ memory, next = { m with memory := memory } := by
  rw [run_storeDigits] at h
  split at h
  next =>
    cases h
    exact ⟨_, rfl⟩
  next => cases h

theorem ok_of_loadRegisters (h : (loadRegisters x).run m = .ok () next) :
    ∃ v, next = { m with v := v } := by
  rw [run_loadRegisters] at h
  split at h
  next =>
    cases h
    exact ⟨_, rfl⟩
  next => cases h

/-! ## Instructions -/

/-- An instruction that completes changes only what its operation writes. -/
theorem frame_of_execute (h : (execute ins).run m = .ok () next) : Frame ins m next := by
  rw [execute, Exec.run_get_bind] at h
  cases hk : ins.mnemonic with
  | none =>
    rw [hk] at h
    cases h
  | some mnemonic =>
    rw [hk] at h
    cases mnemonic with
    | ret =>
      obtain ⟨address, stack, -, rfl⟩ := ok_of_returnFrom h
      constructor <;> simp [hk]
    | call =>
      obtain ⟨-, stack, -, rfl⟩ := ok_of_callTo h
      constructor <;> simp [hk]
    | drw =>
      obtain ⟨screen, hit, -, rfl⟩ := ok_of_drawSprite h
      constructor <;> simp [Instruction.paints, hk]
    | sknp =>
      obtain ⟨pc, rfl⟩ := ok_of_skipUnlessDown h
      constructor <;> simp
    | seByte | sneByte | seReg | sneReg =>
      obtain ⟨pc, rfl⟩ := ok_of_skipIf h
      constructor <;> simp
    | ldDigits =>
      obtain ⟨memory, rfl⟩ := ok_of_storeDigits h
      constructor <;> simp [hk]
    | load =>
      obtain ⟨v, rfl⟩ := ok_of_loadRegisters h
      constructor <;> simp
    | cls | jp | ldByte | addByte | ldReg | ldI | ldFromDelay | ldDelay | addI | ldGlyph =>
      cases h
      constructor <;> simp [Instruction.paints, hk]
    | or | and | xor | addReg | sub | shr | subn | shl | jpV0 | rnd | skp | waitKey | ldSound
    | store => cases h

/-- An instruction that writes to the screen marks it as changed, whether or not a pixel differs. -/
theorem dirty_of_execute (h : (execute ins).run m = .ok () next) (hpaints : ins.paints = true) :
    next.screen.dirty = true := by
  rw [execute, Exec.run_get_bind] at h
  rcases ins.paints_iff.mp hpaints with hk | hk
  · rw [hk] at h
    cases h
    rfl
  · rw [hk] at h
    obtain ⟨screen, hit, hdraw, rfl⟩ := ok_of_drawSprite h
    rw [Screen.draw] at hdraw
    cases hdraw
    rfl

/-! ## Steps -/

/-- A step that completes has executed the instruction that it fetched, on the machine whose
program counter has moved past it. -/
theorem execute_of_step (h : m.step.result = .ok ins) :
    m.fetch = .ok ins ∧ ∃ next, (execute ins).run m.advance = .ok () next ∧
      m.step.machine = next.completed := by
  rw [step_eq] at h ⊢
  cases hfetch : m.fetch with
  | error access => simp [hfetch] at h
  | ok fetched =>
    simp only [hfetch] at h ⊢
    cases hexec : (execute fetched).run m.advance with
    | error fault next => simp [hexec] at h
    | ok done next =>
      simp only [hexec] at h ⊢
      cases h
      exact ⟨rfl, next, hexec, rfl⟩

/-- An instruction that has been fetched and completes makes the step complete. -/
theorem step_of_execute (hfetch : m.fetch = .ok ins)
    (hexec : (execute ins).run m.advance = .ok () next) : m.step = ⟨next.completed, .ok ins⟩ := by
  rw [step_eq, hfetch]
  simp only [hexec]
  rfl

/-- A step that completes leaves alone what its instruction leaves alone. -/
theorem frame_of_step (h : m.step.result = .ok ins) : Frame ins m m.step.machine := by
  obtain ⟨-, next, hexec, hmachine⟩ := execute_of_step h
  rw [hmachine]
  have hframe := frame_of_execute hexec
  exact { hframe with }

theorem dirty_of_step (h : m.step.result = .ok ins) (hpaints : ins.paints = true) :
    m.step.machine.screen.dirty = true := by
  obtain ⟨-, next, hexec, hmachine⟩ := execute_of_step h
  have hdirty := dirty_of_execute hexec hpaints
  rw [hmachine]
  exact hdirty

end Machine

/-! ## Actions of a host -/

namespace Action

/-- Whether the host puts bytes into memory by the action, and not the program. -/
def fillsMemory : Action → Bool
  | .load _ | .write _ _ => true
  | _ => false

/-- Whether the host writes to the screen by the action. -/
def paints : Action → Bool
  | .draw _ _ _ | .clearScreen => true
  | _ => false

end Action

namespace Machine

/-- The parts that an action leaves alone, if it is neither a step nor a run. -/
structure HostFrame (action : Action) (m next : Machine) : Prop where
  memory : action.fillsMemory = false → next.memory = m.memory
  screen : action.paints = false → next.screen = m.screen
  delay : action ≠ .tick → next.delay = m.delay

theorem hostFrame_withKeypad (m : Machine) (keypad : Except NoSuchKey Keypad) (action : Action) :
    HostFrame action m (m.withKeypad keypad).machine := by
  cases keypad with
  | error e => exact ⟨fun _ => rfl, fun _ => rfl, fun _ => rfl⟩
  | ok keypad => exact ⟨fun _ => rfl, fun _ => rfl, fun _ => rfl⟩

theorem hostFrame_withMemory (m : Machine) (memory : Except MemoryError Memory) {action : Action}
    (hfills : action.fillsMemory = true) : HostFrame action m (m.withMemory memory).machine := by
  have hnot : action.fillsMemory ≠ false := by simp [hfills]
  cases memory with
  | error e => exact ⟨fun _ => rfl, fun _ => rfl, fun _ => rfl⟩
  | ok memory => exact ⟨fun h => absurd h hnot, fun _ => rfl, fun _ => rfl⟩

/-- An action of a host changes only what it is about. -/
theorem hostFrame_of_perform (m : Machine) {action : Action} (hstep : action ≠ .step)
    (hrun : ∀ n, action ≠ .run n) : HostFrame action m (m.perform action).machine := by
  cases action with
  | step => exact absurd rfl hstep
  | run n => exact absurd rfl (hrun n)
  | tick => exact ⟨fun _ => rfl, fun _ => rfl, fun h => absurd rfl h⟩
  | press key => exact m.hostFrame_withKeypad (m.keypad.press key) _
  | release key => exact m.hostFrame_withKeypad (m.keypad.release key) _
  | isDown | resetKeys => exact ⟨fun _ => rfl, fun _ => rfl, fun _ => rfl⟩
  | load rom => exact m.hostFrame_withMemory (m.memory.load rom) rfl
  | write address values => exact m.hostFrame_withMemory (m.memory.write address values) rfl
  | draw x y sprite =>
    have hnot : (Action.draw x y sprite).paints ≠ false := by simp [Action.paints]
    rw [perform]
    cases m.screen.place x y sprite with
    | error e => exact ⟨fun _ => rfl, fun _ => rfl, fun _ => rfl⟩
    | ok placed => exact ⟨fun _ => rfl, fun h => absurd h hnot, fun _ => rfl⟩
  | clearScreen => exact ⟨fun _ => rfl, fun h => absurd h (by decide), fun _ => rfl⟩

end Machine

end Chip8
