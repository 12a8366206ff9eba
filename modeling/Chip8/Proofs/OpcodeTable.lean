import Chip8.Machine.Step
import Chip8.Proofs.Decoding

/-!
# The opcode table

The published opcode table says for each pattern of hexadecimal digits what a word of that pattern
does.  Here it is a relation between a machine, a word and the next machine (`Machine.Effect`),
with one rule for each line of the table.  A rule composes the word from its operands, so it knows nothing
of how words are decoded, and names the components that change; all others stay as they are.

The main result is that a step that completes follows the table (`Machine.step_follows_table`).  The
rules that are hardest to keep are those in which one register plays two parts, such as a sprite
whose position is read from VF, which then takes the collision.
-/

namespace Chip8.Machine

/-! ## The table as a relation -/

/-- The word at the program counter, high byte first. -/
def word (m : Machine) : Nat :=
  256 * (m.memory.byte m.pc.toNat).toNat + (m.memory.byte (m.pc.toNat + 1)).toNat

theorem word_lt (m : Machine) : m.word < 65536 := by
  have hhigh := (m.memory.byte m.pc.toNat).toNat_lt
  have hlow := (m.memory.byte (m.pc.toNat + 1)).toNat_lt
  unfold word
  omega

/-- A program begins with the word of its first two bytes. -/
theorem word_image {m : Machine} {size : Nat} {high low : UInt8} {rest : List UInt8}
    (hroom : Memory.programStart + (high :: low :: rest).length ≤ size)
    (hmemory : m.memory = Memory.image size (high :: low :: rest))
    (hpc : m.pc = Memory.programStart) :
    m.memory.InBounds m.pc 2 ∧ m.word = 256 * high.toNat + low.toNat := by
  have hhigh : (Memory.image size (high :: low :: rest)).byte Memory.programStart = high :=
    Memory.byte_image (k := 0) hroom (by simp)
  have hlow : (Memory.image size (high :: low :: rest)).byte (Memory.programStart + 1) = low :=
    Memory.byte_image hroom (by simp)
  constructor
  · rw [hmemory, hpc, Memory.InBounds, Memory.size_image hroom]
    simp only [List.length_cons] at hroom
    omega
  · rw [word, hmemory, hpc, Int.toNat_natCast, hhigh, hlow]

/-- The machine behind an instruction that changes nothing else. -/
def past (m : Machine) : Machine :=
  { m with currentPc := m.pc, pc := m.pc + 2, cycles := m.cycles + 1 }

/-- The machine behind an instruction that skips the next one under a condition. -/
def pastOrSkip (m : Machine) (skip : Prop) [Decidable skip] : Machine :=
  { m.past with pc := if skip then m.pc + 4 else m.pc + 2 }

/-- The opcode table: what a word does to a machine. -/
inductive Effect (m : Machine) : Nat → Machine → Prop
  /-- `00E0`: all pixels go dark. -/
  | clearScreen (screen : Screen)
      (size : screen.width = m.screen.width ∧ screen.height = m.screen.height)
      (dark : ∀ x y, screen.lit x y = false) (dirty : screen.dirty = true) :
      Effect m 0x00E0 { m.past with screen := screen }
  /-- `00EE`: back to the latest return address.  Its slot keeps it. -/
  | returnFrom (stack : CallStack) (address : UInt16) (depth : m.stack.depth = stack.depth + 1)
      (slots : stack.slots = m.stack.slots) (top : m.stack.slots[stack.depth]? = some address) :
      Effect m 0x00EE { m.past with stack := stack, pc := address.toNat }
  /-- `1nnn`. -/
  | jump (nnn : Fin 4096) : Effect m (0x1000 + nnn) { m.past with pc := nnn.val }
  /-- `2nnn`: the return address is that of the next instruction. -/
  | call (nnn : Fin 4096) (stack : CallStack) (depth : stack.depth = m.stack.depth + 1)
      (slots : ∀ k : Fin CallStack.capacity, (stack.slots[k].toNat : Int) =
        if k.val = m.stack.depth then m.pc + 2 else m.stack.slots[k].toNat) :
      Effect m (0x2000 + nnn) { m.past with stack := stack, pc := nnn.val }
  /-- `3xkk`. -/
  | skipIfByte (x : Fin 16) (kk : UInt8) :
      Effect m (0x3000 + 0x100 * x + kk.toNat) (m.pastOrSkip (m.v.get x = kk))
  /-- `4xkk`. -/
  | skipUnlessByte (x : Fin 16) (kk : UInt8) :
      Effect m (0x4000 + 0x100 * x + kk.toNat) (m.pastOrSkip (m.v.get x ≠ kk))
  /-- `5xy0`. -/
  | skipIfEqual (x y : Fin 16) :
      Effect m (0x5000 + 0x100 * x + 0x10 * y) (m.pastOrSkip (m.v.get x = m.v.get y))
  /-- `6xkk`. -/
  | setByte (x : Fin 16) (kk : UInt8) :
      Effect m (0x6000 + 0x100 * x + kk.toNat) (m.past.setV x kk)
  /-- `7xkk`: the sum wraps, and VF is a register like the others. -/
  | addByte (x : Fin 16) (kk sum : UInt8)
      (wrapped : sum.toNat = ((m.v.get x).toNat + kk.toNat) % 256) :
      Effect m (0x7000 + 0x100 * x + kk.toNat) (m.past.setV x sum)
  /-- `8xy0`. -/
  | copy (x y : Fin 16) :
      Effect m (0x8000 + 0x100 * x + 0x10 * y) (m.past.setV x (m.v.get y))
  /-- `9xy0`. -/
  | skipUnlessEqual (x y : Fin 16) :
      Effect m (0x9000 + 0x100 * x + 0x10 * y) (m.pastOrSkip (m.v.get x ≠ m.v.get y))
  /-- `Annn`. -/
  | setI (nnn : Fin 4096) : Effect m (0xA000 + nnn) { m.past with i := nnn.val }
  /-- `Dxyn`: the position is read before VF takes the collision, and a sprite without rows counts
  as drawn. -/
  | draw (x y n : Fin 16) (screen : Screen) (hit : Bool) (range : m.memory.InBounds m.i n)
      (drawn : m.screen.draw (m.v.get x).toNat (m.v.get y).toNat (m.memory.slice m.i.toNat n) =
        (screen, hit))
      (dirty : screen.dirty = true) :
      Effect m (0xD000 + 0x100 * x + 0x10 * y + n)
        ({ m.past with screen := screen }.setV 15 (if hit then 1 else 0))
  /-- `ExA1`. -/
  | skipIfUp (x key : Fin 16) (hkey : (m.v.get x).toNat = key) :
      Effect m (0xE0A1 + 0x100 * x) (m.pastOrSkip (m.keypad.holds key = false))
  /-- `Fx07`. -/
  | readDelay (x : Fin 16) : Effect m (0xF007 + 0x100 * x) (m.past.setV x m.delay)
  /-- `Fx15`. -/
  | setDelay (x : Fin 16) : Effect m (0xF015 + 0x100 * x) { m.past with delay := m.v.get x }
  /-- `Fx1E`: the sum wraps without a flag. -/
  | addI (x : Fin 16) :
      Effect m (0xF01E + 0x100 * x) { m.past with i := (m.i + (m.v.get x).toNat) % 65536 }
  /-- `Fx29`. -/
  | glyphAddress (x : Fin 16) :
      Effect m (0xF029 + 0x100 * x) { m.past with i := 5 * (m.v.get x).toNat }
  /-- `Fx33`: hundreds, tens and ones. -/
  | storeDigits (x : Fin 16) (memory : Memory) (range : m.memory.InBounds m.i 3)
      (size : memory.size = m.memory.size)
      (bytes : ∀ a : Nat, (memory.byte a).toNat =
        if a = m.i then (m.v.get x).toNat / 100
        else if a = m.i + 1 then (m.v.get x).toNat / 10 % 10
        else if a = m.i + 2 then (m.v.get x).toNat % 10
        else (m.memory.byte a).toNat) :
      Effect m (0xF033 + 0x100 * x) { m.past with memory := memory }
  /-- `Fx65`. -/
  | load (x : Fin 16) (v : Vector UInt8 16) (range : m.memory.InBounds m.i (x.val + 1))
      (registers : ∀ k : Fin 16,
        v.get k = if k ≤ x then m.memory.byte (m.i.toNat + k) else m.v.get k) :
      Effect m (0xF065 + 0x100 * x) { m.past with v := v }

/-! ## Instructions that work on the stack, the screen, the keypad or memory

An instruction runs on the machine whose program counter has moved past it, and the cycle is counted
once it has completed. -/

theorem toNat_ofInt_of_lt {a : Int} (h : 0 ≤ a ∧ a < 65536) :
    ((UInt16.ofInt a).toNat : Int) = a := by
  rw [UInt16.ofInt, UInt16.toNat_ofNat']
  omega

variable {m next : Machine} {w : UInt16}

/-- The machine with one more completed instruction. -/
def completed (m : Machine) : Machine :=
  { m with cycles := m.cycles + 1 }

theorem effect_returnFrom (h : (returnFrom w).run m.advance = .ok () next) :
    Effect m 0x00EE next.completed := by
  rw [run_returnFrom] at h
  cases hpop : m.advance.stack.pop? with
  | none => simp [hpop] at h
  | some top =>
    obtain ⟨address, stack⟩ := top
    simp only [hpop] at h
    cases h
    obtain ⟨hdepth, hslots, htop⟩ := CallStack.slots_pop? hpop
    exact .returnFrom stack address hdepth hslots htop

theorem effect_callTo {nnn : Fin 4096} (h : (callTo w nnn).run m.advance = .ok () next) :
    Effect m (0x2000 + nnn) next.completed := by
  rw [run_callTo] at h
  cases hpush : m.advance.stack.push? (UInt16.ofInt m.advance.pc) with
  | none => simp [hpush] at h
  | some stack =>
    simp only [hpush] at h
    split at h
    next hrange =>
      cases h
      obtain ⟨hdepth, hslots⟩ : stack.depth = m.stack.depth + 1 ∧
          ∀ k : Fin CallStack.capacity, stack.slots[k] =
            if k.val = m.stack.depth then UInt16.ofInt (m.pc + 2) else m.stack.slots[k] :=
        CallStack.slots_push? hpush
      refine .call nnn stack hdepth fun k => ?_
      by_cases hk : k.val = m.stack.depth
      · rw [if_pos hk, hslots k, if_pos hk]
        exact toNat_ofInt_of_lt hrange
      · rw [if_neg hk, hslots k, if_neg hk]
    next => cases h

theorem effect_drawSprite {x y n : Fin 16} (h : (drawSprite x y n).run m.advance = .ok () next) :
    Effect m (0xD000 + 0x100 * x + 0x10 * y + n) next.completed := by
  rw [run_drawSprite] at h
  split at h
  next hrange =>
    cases h
    exact .draw x y n _ _ hrange rfl rfl
  next => cases h

theorem completed_skip {condition : Bool} {skip : Prop} [Decidable skip]
    (h : condition = true ↔ skip) :
    (if condition then { m.advance with pc := m.advance.pc + 2 } else m.advance).completed =
      m.pastOrSkip skip := by
  have hpc : m.pc + 2 + 2 = m.pc + 4 := by omega
  by_cases hskip : skip
  · simp only [if_pos (h.2 hskip), pastOrSkip, if_pos hskip, completed, advance, past, hpc]
  · simp only [if_neg (mt h.1 hskip), pastOrSkip, if_neg hskip, completed, advance, past]

theorem completed_of_skipIf {condition : Bool} {skip : Prop} [Decidable skip]
    (hiff : condition = true ↔ skip) (h : (skipIf condition).run m.advance = .ok () next) :
    next.completed = m.pastOrSkip skip := by
  rw [run_skipIf] at h
  cases h
  exact completed_skip hiff

theorem effect_skipUnlessDown {x : Fin 16} (h : (skipUnlessDown w x).run m.advance = .ok () next) :
    Effect m (0xE0A1 + 0x100 * x) next.completed := by
  rw [run_skipUnlessDown] at h
  split at h
  next hkey =>
    have hiff : (!m.keypad.holds ⟨(m.v.get x).toNat, hkey⟩) = true ↔
        m.keypad.holds ⟨(m.v.get x).toNat, hkey⟩ = false := by
      rw [Bool.not_eq_true']
    have hnext : next.completed =
        m.pastOrSkip (m.keypad.holds ⟨(m.v.get x).toNat, hkey⟩ = false) := by
      cases h
      exact completed_skip hiff
    rw [hnext]
    exact .skipIfUp x ⟨(m.v.get x).toNat, hkey⟩ rfl
  next => cases h

theorem effect_loadRegisters {x : Fin 16} (h : (loadRegisters x).run m.advance = .ok () next) :
    Effect m (0xF065 + 0x100 * x) next.completed := by
  rw [run_loadRegisters] at h
  split at h
  next hrange =>
    cases h
    refine .load x _ hrange fun k => (Vector.getElem_ofFn k.isLt).trans ?_
    split
    next hk => exact Memory.getD_slice _ _ (Nat.lt_succ_of_le hk)
    next => rfl
  next => cases h

/-- The three digits of a byte, seen byte by byte. -/
theorem toNat_byte_overwrite_digits {memory : Memory} {i : Int} (hrange : memory.InBounds i 3)
    (value : UInt8) (a : Nat) :
    ((memory.overwrite i.toNat ((decimalDigits value).map UInt8.ofInt)).byte a).toNat =
      if a = i then value.toNat / 100
      else if a = i + 1 then value.toNat / 10 % 10
      else if a = i + 2 then value.toNat % 10
      else (memory.byte a).toNat := by
  obtain ⟨hi, -, hend⟩ := hrange
  obtain ⟨start, rfl⟩ : ∃ start : Nat, i = start := ⟨i.toNat, by omega⟩
  have hvalue := value.toNat_lt
  have hundreds := Memory.toNat_ofInt_byte (a := value.toNat / 100) (by omega)
  have htens := Memory.toNat_ofInt_byte (a := value.toNat / 10 % 10) (by omega)
  have hones := Memory.toNat_ofInt_byte (a := value.toNat % 10) (by omega)
  rw [Int.toNat_natCast, Memory.byte_overwrite (by simp [decimalDigits]; omega)]
  by_cases hin : start ≤ a ∧ a < start + 3
  · rw [if_pos (by simpa [decimalDigits] using hin)]
    obtain rfl | rfl | rfl : a = start ∨ a = start + 1 ∨ a = start + 2 := by omega
    · rw [if_pos rfl, Nat.sub_self]
      simp only [decimalDigits, List.map_cons, List.getD_cons_zero]
      omega
    · rw [if_neg (by omega), if_pos (by omega), Nat.add_sub_cancel_left]
      simp only [decimalDigits, List.map_cons, List.getD_cons_zero, List.getD_cons_succ]
      omega
    · rw [if_neg (by omega), if_neg (by omega), if_pos (by omega), Nat.add_sub_cancel_left]
      simp only [decimalDigits, List.map_cons, List.getD_cons_zero, List.getD_cons_succ]
      omega
  · rw [if_neg (by simpa [decimalDigits] using hin), if_neg (by omega), if_neg (by omega),
      if_neg (by omega)]

theorem effect_storeDigits {x : Fin 16} (h : (storeDigits x).run m.advance = .ok () next) :
    Effect m (0xF033 + 0x100 * x) next.completed := by
  rw [run_storeDigits] at h
  split at h
  next hrange =>
    cases h
    exact .storeDigits x _ hrange (Memory.size_overwrite hrange.add_le)
      (toNat_byte_overwrite_digits hrange (m.v.get x))
  next => cases h

/-! ## All instructions -/

open Instruction in
/-- An instruction that completes follows its line of the table. -/
theorem effect_of_execute (h : (execute (.ofWord w)).run m.advance = .ok () next) :
    Effect m w.toNat next.completed := by
  rw [execute, Exec.run_get_bind] at h
  cases hk : (ofWord w).mnemonic with
  | none =>
    rw [hk] at h
    cases h
  | some mnemonic =>
    rw [hk] at h
    -- In each case the word is first put together from its operands, so that a rule applies to it.
    cases mnemonic with
    | cls =>
      rw [toNat_eq_pattern (p := 0x00E0) (by decide) hk]
      cases h
      exact .clearScreen _ ⟨rfl, rfl⟩ (Screen.lit_clear _) rfl
    | ret =>
      rw [toNat_eq_pattern (p := 0x00EE) (by decide) hk]
      exact effect_returnFrom h
    | jp =>
      rw [toNat_eq_add_nnn (p := 0x1000) (by decide) hk]
      cases h
      exact .jump _
    | call =>
      rw [toNat_eq_add_nnn (p := 0x2000) (by decide) hk]
      exact effect_callTo h
    | seByte =>
      rw [toNat_eq_add_x_kk (p := 0x3000) (by decide) hk]
      rw [completed_of_skipIf beq_iff_eq h]
      exact .skipIfByte _ _
    | sneByte =>
      rw [toNat_eq_add_x_kk (p := 0x4000) (by decide) hk]
      rw [completed_of_skipIf bne_iff_ne h]
      exact .skipUnlessByte _ _
    | seReg =>
      rw [toNat_eq_add_x_y (p := 0x5000) (by decide) hk]
      rw [completed_of_skipIf beq_iff_eq h]
      exact .skipIfEqual _ _
    | sneReg =>
      rw [toNat_eq_add_x_y (p := 0x9000) (by decide) hk]
      rw [completed_of_skipIf bne_iff_ne h]
      exact .skipUnlessEqual _ _
    | ldByte =>
      rw [toNat_eq_add_x_kk (p := 0x6000) (by decide) hk]
      cases h
      exact .setByte _ _
    | addByte =>
      rw [toNat_eq_add_x_kk (p := 0x7000) (by decide) hk]
      cases h
      exact .addByte _ _ _ (UInt8.toNat_add _ _)
    | ldReg =>
      rw [toNat_eq_add_x_y (p := 0x8000) (by decide) hk]
      cases h
      exact .copy _ _
    | ldI =>
      rw [toNat_eq_add_nnn (p := 0xA000) (by decide) hk]
      cases h
      exact .setI _
    | drw =>
      rw [toNat_eq_add_x_y_n (p := 0xD000) (by decide) hk]
      exact effect_drawSprite h
    | sknp =>
      rw [toNat_eq_add_x (p := 0xE0A1) (by decide) hk]
      exact effect_skipUnlessDown h
    | ldFromDelay =>
      rw [toNat_eq_add_x (p := 0xF007) (by decide) hk]
      cases h
      exact .readDelay _
    | ldDelay =>
      rw [toNat_eq_add_x (p := 0xF015) (by decide) hk]
      cases h
      exact .setDelay _
    | addI =>
      rw [toNat_eq_add_x (p := 0xF01E) (by decide) hk]
      cases h
      exact .addI _
    | ldGlyph =>
      rw [toNat_eq_add_x (p := 0xF029) (by decide) hk]
      cases h
      exact .glyphAddress _
    | ldDigits =>
      rw [toNat_eq_add_x (p := 0xF033) (by decide) hk]
      exact effect_storeDigits h
    | load =>
      rw [toNat_eq_add_x (p := 0xF065) (by decide) hk]
      exact effect_loadRegisters h
    | or | and | xor | addReg | sub | shr | subn | shl | jpV0 | rnd | skp | waitKey | ldSound
    | store => cases h

/-! ## Steps -/

/-- The instruction at the program counter is that of the word there, if both of its bytes lie in
memory. -/
theorem fetch_eq (m : Machine) :
    m.fetch =
      if m.memory.InBounds m.pc 2 then .ok (.ofWord (UInt16.ofNat m.word))
      else .error ⟨m.pc, 2⟩ := by
  unfold fetch Memory.readWord
  split <;> rfl

/-- A step that completes has fetched its instruction and followed the table. -/
theorem effect_of_step {ins : Instruction} (h : m.step.result = .ok ins) :
    m.memory.InBounds m.pc 2 ∧ ins = .ofWord (UInt16.ofNat m.word) ∧
      Effect m m.word m.step.machine := by
  rw [step_eq, fetch_eq] at h ⊢
  by_cases hrange : m.memory.InBounds m.pc 2
  · rw [if_pos hrange] at h ⊢
    cases hexec : (execute (.ofWord (UInt16.ofNat m.word))).run m.advance with
    | error fault next => simp only [hexec, reduceCtorEq] at h
    | ok u next =>
      simp only [hexec] at h ⊢
      have heffect := effect_of_execute hexec
      rw [UInt16.toNat_ofNat', Nat.mod_eq_of_lt m.word_lt] at heffect
      exact ⟨hrange, (Except.ok.inj h).symm, heffect⟩
  · rw [if_neg hrange] at h
    cases h

/-- Each line of the table notes the address of the instruction and counts the cycle. -/
theorem Effect.currentPc_cycles {n : Nat} (h : Effect m n next) :
    next.currentPc = m.pc ∧ next.cycles = m.cycles + 1 := by
  cases h <;> exact ⟨rfl, rfl⟩

/-- **Steps follow the opcode table.**  A step that completes gives back the instruction that the
word at the program counter decodes to, and does to the machine what the table says of that word and
nothing else. -/
theorem step_follows_table {m : Machine} {ins : Instruction} (h : m.step.result = .ok ins) :
    m.memory.InBounds m.pc 2 ∧ ins = Instruction.decode m.word ∧
      m.step.machine.currentPc = m.pc ∧ m.step.machine.cycles = m.cycles + 1 ∧
      Effect m m.word m.step.machine := by
  obtain ⟨hrange, hins, heffect⟩ := effect_of_step h
  obtain ⟨hpc, hcycles⟩ := heffect.currentPc_cycles
  rw [Instruction.decode_natCast]
  exact ⟨hrange, hins, hpc, hcycles, heffect⟩

/-- A machine that is about to draw a sprite at a position given by VF, which also takes the
collision. -/
def drawAtVF : Machine :=
  { start ⟨#[0xDF, 0xF1, 0xFF]⟩ .standard with pc := 0, i := 2, v := Vector.replicate 16 3 }

theorem drawAtVF_follows_table :
    drawAtVF.step.result = .ok (.ofWord 0xDFF1) ∧
      Effect drawAtVF 0xDFF1 drawAtVF.step.machine := by
  have h : drawAtVF.step.result = .ok (.ofWord 0xDFF1) := by rfl
  exact ⟨h, (step_follows_table h).2.2.2.2⟩

end Chip8.Machine
