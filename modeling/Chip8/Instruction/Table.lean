import Chip8.Instruction.Basic

/-!
# The opcode table

Each row of the table describes a family of words by a mask and a pattern: the row accepts the
words whose masked bits are the pattern.  Decoding takes the first row that accepts the word.
-/

namespace Chip8

/-- A family of words that share an operation. -/
structure Row where
  mask : UInt16
  pattern : UInt16
  mnemonic : Mnemonic
deriving DecidableEq, Repr

/-- Whether a word belongs to the row. -/
def Row.accepts (row : Row) (word : UInt16) : Bool :=
  word &&& row.mask == row.pattern

namespace Instruction

/-- The instruction set. -/
def table : List Row := [
  ⟨0xFFFF, 0x00E0, .cls⟩,
  ⟨0xFFFF, 0x00EE, .ret⟩,
  ⟨0xF000, 0x1000, .jp⟩,
  ⟨0xF000, 0x2000, .call⟩,
  ⟨0xF000, 0x3000, .seByte⟩,
  ⟨0xF000, 0x4000, .sneByte⟩,
  ⟨0xF00F, 0x5000, .seReg⟩,
  ⟨0xF000, 0x6000, .ldByte⟩,
  ⟨0xF000, 0x7000, .addByte⟩,
  ⟨0xF00F, 0x8000, .ldReg⟩,
  ⟨0xF00F, 0x8001, .or⟩,
  ⟨0xF00F, 0x8002, .and⟩,
  ⟨0xF00F, 0x8003, .xor⟩,
  ⟨0xF00F, 0x8004, .addReg⟩,
  ⟨0xF00F, 0x8005, .sub⟩,
  ⟨0xF00F, 0x8006, .shr⟩,
  ⟨0xF00F, 0x8007, .subn⟩,
  ⟨0xF00F, 0x800E, .shl⟩,
  ⟨0xF00F, 0x9000, .sneReg⟩,
  ⟨0xF000, 0xA000, .ldI⟩,
  ⟨0xF000, 0xB000, .jpV0⟩,
  ⟨0xF000, 0xC000, .rnd⟩,
  ⟨0xF000, 0xD000, .drw⟩,
  ⟨0xF0FF, 0xE09E, .skp⟩,
  ⟨0xF0FF, 0xE0A1, .sknp⟩,
  ⟨0xF0FF, 0xF007, .ldFromDelay⟩,
  ⟨0xF0FF, 0xF00A, .waitKey⟩,
  ⟨0xF0FF, 0xF015, .ldDelay⟩,
  ⟨0xF0FF, 0xF018, .ldSound⟩,
  ⟨0xF0FF, 0xF01E, .addI⟩,
  ⟨0xF0FF, 0xF029, .ldGlyph⟩,
  ⟨0xF0FF, 0xF033, .ldDigits⟩,
  ⟨0xF0FF, 0xF055, .store⟩,
  ⟨0xF0FF, 0xF065, .load⟩]

/-- Reads a word by the first of the given rows that accepts it. -/
def ofWordBy (rows : List Row) (word : UInt16) : Instruction where
  opcode := word
  mnemonic := (rows.find? (·.accepts word)).map Row.mnemonic

/-- Reads a word by the table. -/
def ofWord (word : UInt16) : Instruction :=
  ofWordBy table word

/-- Reads the lowest sixteen bits of a number.  Every number has a reading. -/
def decode (number : Int) : Instruction :=
  ofWord (UInt16.ofInt number)

end Instruction

end Chip8
