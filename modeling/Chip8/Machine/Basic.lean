import Chip8.CallStack
import Chip8.Keypad.Basic
import Chip8.Memory.Basic
import Chip8.Screen.Basic

/-!
# The machine

The whole state of the console: sixteen byte registers, the address register, the program counter,
the call stack, the delay timer, and the memory, screen and keypad that a program works on.

The address register and the program counter are integers, because they may be set to anything from
outside; a program alone keeps them small.
-/

namespace Chip8

structure Machine where
  memory : Memory
  screen : Screen
  keypad : Keypad
  /-- The registers V0 to VF. -/
  v : Vector UInt8 16
  /-- The address register. -/
  i : Int
  pc : Int
  /-- The address of the latest instruction, even if it could not be fetched. -/
  currentPc : Int
  stack : CallStack
  delay : UInt8
  /-- The number of completed instructions. -/
  cycles : Nat
deriving DecidableEq, Repr

namespace Machine

open Numeral

/-- A machine at rest with a given memory and screen. -/
def start (memory : Memory) (screen : Screen) : Machine where
  memory := memory
  screen := screen
  keypad := .allUp
  v := Vector.replicate 16 0
  i := 0
  pc := Memory.programStart
  currentPc := Memory.programStart
  stack := .empty
  delay := 0
  cycles := 0

/-- Counts the delay timer down, if it has not run out. -/
def tick (m : Machine) : Machine :=
  { m with delay := if m.delay = 0 then 0 else m.delay - 1 }

/-! ## The register line -/

/-- The text of one register. -/
def registerField (k : Fin 16) (value : UInt8) : String :=
  "V" ++ hex 1 k.val ++ "=" ++ byteHex value

/-- The line of given registers, with the texts for the depth of the stack and the delay. -/
def registerText (v : Vector UInt8 16) (i pc : Int) (depth delay : String) : String :=
  " ".intercalate ((List.finRange 16).map fun k => registerField k (v.get k)) ++
    " I=" ++ hex 3 i ++ " PC=" ++ hex 3 pc ++ " SP=" ++ depth ++ " DT=" ++ delay

/-- The register line of the machine, whose depth and delay are small. -/
def registers (m : Machine) : String :=
  registerText m.v m.i m.pc (decimal m.stack.depth) (decimal m.delay.toNat)

end Machine

end Chip8
