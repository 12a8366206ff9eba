import Chip8.CommandLine.Option
import Chip8.Diagnostic
import Chip8.Text.Quoted

/-!
# Command line errors

What can be wrong with a command line, and the wording for it.
-/

namespace Chip8.CommandLine

inductive Error where
  /-- Several options begin with the word. -/
  | ambiguous (word : String) (spellings : List String)
  /-- An option that takes a value has none. -/
  | valueExpected (option : Opt)
  /-- An option that takes no value has one. -/
  | valueIgnored (option : Opt) (value : String)
  /-- The value of an option is no whole number. -/
  | notANumber (amount : Amount) (value : String)
  /-- There is no program file. -/
  | romMissing
  /-- Words that mean nothing here. -/
  | unrecognized (words : List String)
  | badAmount (e : AmountError)
deriving DecidableEq, Repr

namespace Error

/-- A complaint about one option. -/
def about (option : Opt) (complaint : String) : String :=
  "argument " ++ option.label ++ ": " ++ complaint

def message : Error → String
  | ambiguous word spellings =>
    "ambiguous option: " ++ word ++ " could match " ++ ", ".intercalate spellings
  | valueExpected option => about option "expected one argument"
  | valueIgnored option value => about option ("ignored explicit argument " ++ Text.quoted value)
  | notANumber amount value =>
    about (.amount amount) ("invalid int value: " ++ Text.quoted value)
  | romMissing => "the following arguments are required: rom"
  | unrecognized words => "unrecognized arguments: " ++ " ".intercalate words
  | badAmount e => e.message

/-- The error as a diagnostic.  An amount without a value is not one of the console's own failures,
and neither is one with too many digits, which no command line gives. -/
def diagnostic? : Error → Option Diagnostic
  | badAmount (.missing _) | badAmount (.tooManyDigits _) => none
  | e => some (.configuration e.message)

end Error

end Chip8.CommandLine
