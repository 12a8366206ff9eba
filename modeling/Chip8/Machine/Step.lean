import Chip8.Instruction.Assembly
import Chip8.Instruction.Table
import Chip8.Machine.Fault

/-!
# Running instructions

A step fetches the word at the program counter, reads it as an instruction and executes it.  The
program counter moves past the word before the instruction runs, so a jump, a call or a skip starts
from the next instruction.

Each operation is followed by a lemma that says what it leaves behind on a given machine, whether it
completes or fails; with these lemmas the operations need not be unfolded.
-/

namespace Chip8.Machine

/-! ## Single instructions

Each operation acts on a machine whose program counter has already moved past the instruction. -/

/-- Moves past one more instruction if a condition holds. -/
def skipIf (condition : Bool) : Exec Unit :=
  if condition then modify fun m => { m with pc := m.pc + 2 } else pure ()

theorem run_skipIf (condition : Bool) (m : Machine) :
    (skipIf condition).run m = .ok () (if condition then { m with pc := m.pc + 2 } else m) := by
  cases condition <;> rfl

/-- Sets one register. -/
def setV (m : Machine) : Fin 16 → UInt8 → Machine
  | ⟨x, hx⟩, value => { m with v := m.v.set x value hx }

/-- Continues behind the latest call. -/
def returnFrom (word : UInt16) : Exec Unit := do
  let m ← get
  match m.stack.pop? with
  | none => throw (.stackUnderflow m.currentPc word)
  | some (address, stack) => set { m with stack := stack, pc := address.toNat }

theorem run_returnFrom (word : UInt16) (m : Machine) :
    (returnFrom word).run m =
      match m.stack.pop? with
      | none => .error (.stackUnderflow m.currentPc word) m
      | some (address, stack) => .ok () { m with stack := stack, pc := address.toNat } := by
  rw [returnFrom, Exec.run_get_bind]
  cases m.stack.pop? <;> rfl

/-- Fails for a return address that does not fit in a slot of the stack. -/
def checkReturn (address : Int) : Exec Unit :=
  if 0 ≤ address ∧ address < 65536 then pure () else throw (.returnAddress address)

/-- Continues at an address, and keeps the present one for the return. -/
def callTo (word : UInt16) (address : Fin 4096) : Exec Unit := do
  let m ← get
  match m.stack.push? (UInt16.ofInt m.pc) with
  | none => throw (.stackOverflow m.currentPc word)
  | some stack =>
    checkReturn m.pc
    modify fun m => { m with stack := stack }
    modify fun m => { m with pc := address.val }

theorem run_callTo (word : UInt16) (address : Fin 4096) (m : Machine) :
    (callTo word address).run m =
      match m.stack.push? (UInt16.ofInt m.pc) with
      | none => .error (.stackOverflow m.currentPc word) m
      | some stack =>
        if 0 ≤ m.pc ∧ m.pc < 65536 then .ok () { m with stack := stack, pc := address.val }
        else .error (.returnAddress m.pc) m := by
  rw [callTo, Exec.run_get_bind]
  cases m.stack.push? (UInt16.ofInt m.pc) with
  | none => rfl
  | some stack =>
    by_cases h : 0 ≤ m.pc ∧ m.pc < 65536
    · simp only [checkReturn, if_pos h, EStateM.run_bind, EStateM.run_pure, EStateM.run_modify]
    · simp only [checkReturn, if_neg h, EStateM.run_bind, Exec.run_throw]

/-- Draws the sprite of `n` rows at the address register, and notes in VF whether it met a lit
pixel. -/
def drawSprite (x y n : Fin 16) : Exec Unit := do
  let m ← get
  let sprite ← Exec.lift .memory (m.memory.read m.i n.val)
  let (screen, hit) ←
    Exec.lift .position (m.screen.place (m.v.get x).toNat (m.v.get y).toNat sprite)
  modify fun m => { m with screen := screen }
  modify fun m => m.setV 15 (if hit then 1 else 0)

theorem run_drawSprite (x y n : Fin 16) (m : Machine) :
    (drawSprite x y n).run m =
      if m.memory.InBounds m.i n.val then
        let drawn :=
          m.screen.draw (m.v.get x).toNat (m.v.get y).toNat (m.memory.slice m.i.toNat n.val)
        .ok () ({ m with screen := drawn.1 }.setV 15 (if drawn.2 then 1 else 0))
      else .error (.outOfBounds ⟨m.i, n.val⟩) m := by
  have hlength : n.val < Numeral.digitLimit := Nat.lt_trans n.isLt (by decide)
  rw [drawSprite, Exec.run_get_bind, m.memory.read_of_lt m.i hlength]
  split
  · simp only [EStateM.run_bind, Exec.run_lift_ok, Screen.place_byte, EStateM.run_modify]
  · rfl

/-- Skips an instruction if the key with the number in a register is up. -/
def skipUnlessDown (word : UInt16) (x : Fin 16) : Exec Unit := do
  let m ← get
  let number := m.v.get x
  if 15 < number.toNat then throw (.noSuchKey m.currentPc word number)
  let down ← Exec.lift .keypad (m.keypad.isDown number.toNat)
  skipIf !down

theorem run_skipUnlessDown (word : UInt16) (x : Fin 16) (m : Machine) :
    (skipUnlessDown word x).run m =
      if h : (m.v.get x).toNat < 16 then
        .ok () (if !m.keypad.holds ⟨(m.v.get x).toNat, h⟩ then { m with pc := m.pc + 2 } else m)
      else .error (.noSuchKey m.currentPc word (m.v.get x)) m := by
  rw [skipUnlessDown, Exec.run_get_bind]
  by_cases h : (m.v.get x).toNat < 16
  · rw [dif_pos h]
    simp only [if_neg (show ¬ 15 < (m.v.get x).toNat by omega), Keypad.isDown_of_lt _ h,
      EStateM.run_bind, Exec.run_lift_ok, run_skipIf]
  · rw [dif_neg h]
    simp only [if_pos (show 15 < (m.v.get x).toNat by omega), EStateM.run_bind, Exec.run_throw]

/-- The hundreds, tens and ones of a byte. -/
def decimalDigits (value : UInt8) : List Int :=
  [value.toNat / 100, value.toNat / 10 % 10, value.toNat % 10]

/-- The digits of a byte are bytes. -/
theorem write_decimalDigits (memory : Memory) (address : Int) (value : UInt8) :
    memory.write address (decimalDigits value) =
      (memory.store address ((decimalDigits value).map UInt8.ofInt)).mapError .outOfBounds := by
  have := value.toNat_lt
  rw [Memory.write, if_pos]
  simp [decimalDigits]
  omega

/-- Stores the decimal digits of a register at the address register. -/
def storeDigits (x : Fin 16) : Exec Unit := do
  let m ← get
  let memory ← Exec.lift .memory (m.memory.write m.i (decimalDigits (m.v.get x)))
  set { m with memory := memory }

theorem run_storeDigits (x : Fin 16) (m : Machine) :
    (storeDigits x).run m =
      if m.memory.InBounds m.i 3 then
        .ok () { m with
          memory := m.memory.overwrite m.i.toNat ((decimalDigits (m.v.get x)).map UInt8.ofInt) }
      else .error (.outOfBounds ⟨m.i, 3⟩) m := by
  have hlength : (((decimalDigits (m.v.get x)).map UInt8.ofInt).length : Int) = 3 := rfl
  rw [storeDigits, Exec.run_get_bind, write_decimalDigits, Memory.store, hlength]
  split <;> rfl

/-- Loads the registers up to `x` from the address register on. -/
def loadRegisters (x : Fin 16) : Exec Unit := do
  let m ← get
  let values ← Exec.lift .memory (m.memory.read m.i (x.val + 1 : Nat))
  set { m with v := Vector.ofFn fun k => if k ≤ x then values.getD k.val 0 else m.v.get k }

theorem run_loadRegisters (x : Fin 16) (m : Machine) :
    (loadRegisters x).run m =
      if m.memory.InBounds m.i (x.val + 1) then
        .ok () { m with v := Vector.ofFn fun k =>
          if k ≤ x then (m.memory.slice m.i.toNat (x.val + 1)).getD k.val 0 else m.v.get k }
      else .error (.outOfBounds ⟨m.i, x.val + 1⟩) m := by
  have hlength : x.val + 1 < Numeral.digitLimit := Nat.lt_of_le_of_lt x.isLt (by decide)
  rw [loadRegisters, Exec.run_get_bind, m.memory.read_of_lt m.i hlength]
  simp only [Int.natCast_succ]
  split <;> rfl

/-- Executes an instruction. -/
def execute (ins : Instruction) : Exec Unit := do
  let m ← get
  match ins.mnemonic with
  | none => throw (.unknownOpcode m.currentPc ins.opcode)
  | some .cls => set { m with screen := m.screen.clear }
  | some .ret => returnFrom ins.opcode
  | some .jp => set { m with pc := ins.nnn.val }
  | some .call => callTo ins.opcode ins.nnn
  | some .seByte => skipIf (m.v.get ins.x == ins.kk)
  | some .sneByte => skipIf (m.v.get ins.x != ins.kk)
  | some .seReg => skipIf (m.v.get ins.x == m.v.get ins.y)
  | some .sneReg => skipIf (m.v.get ins.x != m.v.get ins.y)
  | some .ldByte => set (m.setV ins.x ins.kk)
  | some .addByte => set (m.setV ins.x (m.v.get ins.x + ins.kk))
  | some .ldReg => set (m.setV ins.x (m.v.get ins.y))
  | some .ldI => set { m with i := ins.nnn.val }
  | some .drw => drawSprite ins.x ins.y ins.n
  | some .sknp => skipUnlessDown ins.opcode ins.x
  | some .ldFromDelay => set (m.setV ins.x m.delay)
  | some .ldDelay => set { m with delay := m.v.get ins.x }
  | some .addI => set { m with i := (m.i + (m.v.get ins.x).toNat) % 65536 }
  | some .ldGlyph => set { m with i := glyphSize * (m.v.get ins.x).toNat }
  | some .ldDigits => storeDigits ins.x
  | some .load => loadRegisters ins.x
  | some mnemonic => throw (.unsupportedOpcode m.currentPc ins.opcode mnemonic)

/-! ## Steps and runs -/

/-- Reads the instruction at the program counter. -/
def fetch (m : Machine) : Except OutOfBounds Instruction :=
  (m.memory.readWord m.pc).map Instruction.ofWord

/-- The machine with its program counter moved past the present instruction. -/
def advance (m : Machine) : Machine :=
  { m with currentPc := m.pc, pc := m.pc + 2 }

/-- Fetches and executes the instruction at the program counter, and tells which one it was. -/
def cycle : Exec Instruction := do
  modify fun m => { m with currentPc := m.pc }
  let m ← get
  let ins ← Exec.lift .outOfBounds m.fetch
  modify fun m => { m with pc := m.pc + 2 }
  execute ins
  modify fun m => { m with cycles := m.cycles + 1 }
  return ins

/-- One step from a machine. -/
def step (m : Machine) : Outcome Fault Instruction :=
  cycle.outcome m

theorem step_eq (m : Machine) :
    m.step =
      match m.fetch with
      | .error access => ⟨{ m with currentPc := m.pc }, .error (.outOfBounds access)⟩
      | .ok ins =>
        match (execute ins).run m.advance with
        | .error fault next => ⟨next, .error fault⟩
        | .ok _ next => ⟨{ next with cycles := next.cycles + 1 }, .ok ins⟩ := by
  have hf : fetch { m with currentPc := m.pc } = m.fetch := rfl
  have hm : { m with currentPc := m.pc, pc := m.pc + 2 } = m.advance := rfl
  unfold step Exec.outcome cycle
  rw [Exec.run_modify_bind, Exec.run_get_bind, hf]
  cases m.fetch with
  | error access => rfl
  | ok ins =>
    simp only [EStateM.run_bind, Exec.run_lift_ok, EStateM.run_modify, hm]
    cases (execute ins).run m.advance <;> rfl

/-- Executes up to `n` instructions, and stops at the first that fails. -/
def run (n : Nat) (m : Machine) : Outcome Fault Unit :=
  match n with
  | 0 => ⟨m, .ok ()⟩
  | n + 1 =>
    match m.step with
    | ⟨next, .ok _⟩ => run n next
    | ⟨next, .error fault⟩ => ⟨next, .error fault⟩

end Chip8.Machine
