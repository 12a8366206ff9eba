/-!
# Instructions

An instruction is a 16-bit word together with the mnemonic that its bit pattern stands for, if it
stands for one.  The operands are fields of the word:

* `nnn`, the lowest twelve bits, an address;
* `kk`, the lowest eight bits, a byte;
* `x` and `y`, the second and third nibble, register numbers;
* `n`, the lowest nibble, a sprite height.
-/

namespace Chip8

/-- The operations that a word can stand for. -/
inductive Mnemonic where
  | cls | ret | jp | call
  | seByte | sneByte | seReg
  | ldByte | addByte | ldReg
  | or | and | xor | addReg | sub | shr | subn | shl
  | sneReg | ldI | jpV0 | rnd | drw | skp | sknp
  | ldFromDelay | waitKey | ldDelay | ldSound | addI
  | ldGlyph | ldDigits | store | load
deriving DecidableEq, Repr

namespace Mnemonic

/-- The name under which diagnostics and listings show the operation. -/
def name : Mnemonic → String
  | cls => "CLS"
  | ret => "RET"
  | jp => "JP"
  | call => "CALL"
  | seByte => "SE_VX_KK"
  | sneByte => "SNE_VX_KK"
  | seReg => "SE_VX_VY"
  | ldByte => "LD_VX_KK"
  | addByte => "ADD_VX_KK"
  | ldReg => "LD_VX_VY"
  | or => "OR"
  | and => "AND"
  | xor => "XOR"
  | addReg => "ADD_VX_VY"
  | sub => "SUB"
  | shr => "SHR"
  | subn => "SUBN"
  | shl => "SHL"
  | sneReg => "SNE_VX_VY"
  | ldI => "LD_I"
  | jpV0 => "JP_V0"
  | rnd => "RND"
  | drw => "DRW"
  | skp => "SKP"
  | sknp => "SKNP"
  | ldFromDelay => "LD_VX_DT"
  | waitKey => "WAITKEY"
  | ldDelay => "LD_DT_VX"
  | ldSound => "LD_ST_VX"
  | addI => "ADD_I_VX"
  | ldGlyph => "LD_F_VX"
  | ldDigits => "LD_B_VX"
  | store => "STORE"
  | load => "LOAD"

/-- Whether the machine executes the operation.  The others are recognised and refused. -/
def supported : Mnemonic → Bool
  | or | and | xor | addReg | sub | shr | subn | shl
  | jpV0 | rnd | skp | waitKey | ldSound | store => false
  | _ => true

end Mnemonic

/-- A word and the operation that it stands for; `none` marks a word without meaning. -/
structure Instruction where
  opcode : UInt16
  mnemonic : Option Mnemonic
deriving DecidableEq, Repr

namespace Instruction

/-! ## Operands -/

/-- The topmost nibble, which selects the family of the instruction. -/
def family (ins : Instruction) : Fin 16 :=
  ⟨ins.opcode.toNat / 4096, by have := ins.opcode.toNat_lt; omega⟩

def x (ins : Instruction) : Fin 16 :=
  ⟨ins.opcode.toNat / 256 % 16, by omega⟩

def y (ins : Instruction) : Fin 16 :=
  ⟨ins.opcode.toNat / 16 % 16, by omega⟩

def n (ins : Instruction) : Fin 16 :=
  ⟨ins.opcode.toNat % 16, by omega⟩

def kk (ins : Instruction) : UInt8 :=
  UInt8.ofNat (ins.opcode.toNat % 256)

def nnn (ins : Instruction) : Fin 4096 :=
  ⟨ins.opcode.toNat % 4096, by omega⟩

/-- The name of the operation, or a word of its own if there is none. -/
def name (ins : Instruction) : String :=
  match ins.mnemonic with
  | some mnemonic => mnemonic.name
  | none => "UNKNOWN"

/-- Whether the machine executes the instruction. -/
def supported (ins : Instruction) : Bool :=
  ins.mnemonic.any Mnemonic.supported

end Instruction

end Chip8
