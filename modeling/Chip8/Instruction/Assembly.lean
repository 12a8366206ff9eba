import Chip8.Instruction.Basic
import Chip8.Numeral

/-!
# Assembly text

The text of an instruction in the usual assembly notation.  Addresses have three hexadecimal
digits, bytes two, registers one; a word without meaning is shown whole behind question marks.
-/

namespace Chip8.Instruction

open Numeral

/-- A register as an operand. -/
def registerText (r : Fin 16) : String :=
  "V" ++ hex 1 r.val

/-- The instruction in assembly notation. -/
def text (ins : Instruction) : String :=
  let vx := registerText ins.x
  let vy := registerText ins.y
  let byte := markedHex 2 ins.kk.toNat
  let address := markedHex 3 ins.nnn.val
  match ins.mnemonic with
  | none => "??? " ++ markedHex 4 ins.opcode.toNat
  | some .cls => "CLS"
  | some .ret => "RET"
  | some .jp => "JP " ++ address
  | some .call => "CALL " ++ address
  | some .seByte => "SE " ++ vx ++ ", " ++ byte
  | some .sneByte => "SNE " ++ vx ++ ", " ++ byte
  | some .seReg => "SE " ++ vx ++ ", " ++ vy
  | some .ldByte => "LD " ++ vx ++ ", " ++ byte
  | some .addByte => "ADD " ++ vx ++ ", " ++ byte
  | some .ldReg => "LD " ++ vx ++ ", " ++ vy
  | some .or => "OR " ++ vx ++ ", " ++ vy
  | some .and => "AND " ++ vx ++ ", " ++ vy
  | some .xor => "XOR " ++ vx ++ ", " ++ vy
  | some .addReg => "ADD " ++ vx ++ ", " ++ vy
  | some .sub => "SUB " ++ vx ++ ", " ++ vy
  | some .shr => "SHR " ++ vx
  | some .subn => "SUBN " ++ vx ++ ", " ++ vy
  | some .shl => "SHL " ++ vx
  | some .sneReg => "SNE " ++ vx ++ ", " ++ vy
  | some .ldI => "LD I, " ++ address
  | some .jpV0 => "JP V0, " ++ address
  | some .rnd => "RND " ++ vx ++ ", " ++ byte
  | some .drw => "DRW " ++ vx ++ ", " ++ vy ++ ", " ++ decimal ins.n.val
  | some .skp => "SKP " ++ vx
  | some .sknp => "SKNP " ++ vx
  | some .ldFromDelay => "LD " ++ vx ++ ", DT"
  | some .waitKey => "LD " ++ vx ++ ", K"
  | some .ldDelay => "LD DT, " ++ vx
  | some .ldSound => "LD ST, " ++ vx
  | some .addI => "ADD I, " ++ vx
  | some .ldGlyph => "LD F, " ++ vx
  | some .ldDigits => "LD B, " ++ vx
  | some .store => "LD [I], " ++ vx
  | some .load => "LD " ++ vx ++ ", [I]"

end Chip8.Instruction
