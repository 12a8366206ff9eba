import Chip8.Numeral
import Chip8.Text.Blank
import Chip8.Text.DecimalDigit

/-!
# Integers in text

Reading a whole number: blanks around it, at most one sign directly before the digits, and decimal
digits of any script with single underscores between them.  A number with more digits than may be
written is refused.
-/

namespace Chip8.Text

/-- The digits of a run of digits with single underscores between them; `none` if the text is not
such a run. -/
def digitRun? : List Char → Option (List Nat)
  | [] => none
  | [c] => (digitValue? c).map ([·])
  | c :: '_' :: rest => do return (← digitValue? c) :: (← digitRun? rest)
  | c :: rest => do return (← digitValue? c) :: (← digitRun? rest)

/-- A natural number without sign or blanks. -/
def readNat? (cs : List Char) : Option Nat := do
  let ds ← digitRun? cs
  if ds.length ≤ Numeral.digitLimit then some (Numeral.value 10 ds) else none

/-- A number with an optional sign. -/
def readSigned? : List Char → Option Int
  | '-' :: cs => (readNat? cs).map fun n : Nat => -(n : Int)
  | '+' :: cs => (readNat? cs).map Int.ofNat
  | cs => (readNat? cs).map Int.ofNat

/-- The whole number that the text is; `none` if it is not one. -/
def readInt? (text : String) : Option Int :=
  readSigned? (trimBlank text.toList)

end Chip8.Text
