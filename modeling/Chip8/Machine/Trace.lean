import Chip8.Machine.Step

/-!
# Traces

What a step writes when tracing is on: first a line with the address, the word and the text of the
instruction, then, if the instruction completes, a remark of some instructions, and last the
registers.  An instruction that fails leaves the first line alone, and a word that cannot be fetched
leaves nothing.

A trace is computed from the machine before the step.  That it is what a narrated step writes is a
theorem about narrated steps.
-/

namespace Chip8

open Numeral

/-- The line that announces an instruction at an address. -/
def Instruction.traceLine (ins : Instruction) (pc : Int) : String :=
  hex 3 pc ++ ": " ++ hex 4 ins.opcode.toNat ++ "  " ++ ins.text

/-- The remark of an instruction on the machine that it leaves behind. -/
def Instruction.remark? (ins : Instruction) (after : Machine) : Option String :=
  match ins.mnemonic with
  | some .cls => some "Clear the display"
  | some .ret => some ("Return to " ++ markedHex 1 after.pc.toNat)
  | some .call => some ("Call subroutine at " ++ markedHex 1 ins.nnn.val)
  | some .drw => some ("Drew sprite, collision=" ++ decimal after.v[15].toNat)
  | _ => none

namespace Machine

/-- The lines of one step. -/
def traceStep (m : Machine) : List String :=
  match m.fetch with
  | .error _ => []
  | .ok ins =>
    ins.traceLine m.pc ::
      match (execute ins).run m.advance with
      | .error _ _ => []
      | .ok _ next => (ins.remark? next).toList ++ [next.registers]

/-- The lines of a run. -/
def traceRun (n : Nat) (m : Machine) : List String :=
  match n with
  | 0 => []
  | n + 1 =>
    m.traceStep ++
      match m.step with
      | ⟨next, .ok _⟩ => traceRun n next
      | ⟨_, .error _⟩ => []

end Machine

end Chip8
