import Chip8.CommandLine.Error
import Chip8.Text.DecimalDigit

/-!
# Tokens

What each word of a command line is by itself: an operand, an option or neither.  The first word of
two dashes alone separates: every word behind it is an operand.
-/

namespace Chip8.CommandLine

open Text

/-- The word of two dashes alone. -/
def doubleDash : String := "--"

inductive Token where
  | operand (word : String)
  | separator
  /-- A long option, and the text behind its equals sign. -/
  | long (option : Opt) (attached : Option String)
  /-- A single dash with the letter of a flag, and the text behind the letter. -/
  | short (flag : Flag) (attached : Option String)
  /-- A word that looks like an option and is none. -/
  | unknown (word : String)
deriving DecidableEq, Repr

/-- A word without one line feed at its end. -/
def dropFinalNewline (cs : List Char) : List Char :=
  if cs.getLast? = some '\n' then cs.dropLast else cs

/-- Decimal digits, at least one. -/
def isDigits (cs : List Char) : Bool :=
  cs != [] && cs.all isDecimalDigit

/-- Digits, or digits with a point in front or among them.  At least one digit follows a point. -/
def isPlainNumber (cs : List Char) : Bool :=
  isDigits cs ||
    match cs.dropWhile isDecimalDigit with
    | '.' :: fraction => isDigits fraction
    | _ => false

/-- Whether a word is a negative number, perhaps with a line feed at its end. -/
def isNegativeNumber : List Char → Bool
  | '-' :: cs => isPlainNumber (dropFinalNewline cs)
  | _ => false

/-- The text before the first equals sign and the text behind it; `none` if there is no such
sign. -/
def splitEquals? (cs : List Char) : Option (List Char × List Char) :=
  match cs.dropWhile (· ≠ '=') with
  | _ :: value => some (cs.takeWhile (· ≠ '='), value)
  | [] => none

/-- The token of a spelled option. -/
def Token.ofOption (spelling : List Char) (option : Opt) (attached : Option String) : Token :=
  match spelling, option with
  | ['-', _], .flag f => .short f attached
  | _, _ => .long option attached

/-- The token of a dashed word that no option begins with.  Negative numbers and words with a space
in them are operands. -/
def Token.ofStray (word : String) : Token :=
  if isNegativeNumber word.toList || word.toList.contains ' ' then .operand word
  else .unknown word

/-- The token of a word that begins with a dash and goes on, but is no spelling of an option. -/
def Token.ofDashed (word : String) : Except Error Token :=
  let cs := word.toList
  match cs with
  | '-' :: '-' :: _ =>
    let (start, attached) := match splitEquals? cs with
      | some (start, value) => (start, some (String.ofList value))
      | none => (cs, none)
    match Opt.candidates start with
    | [] => .ok (.ofStray word)
    | [(_, option)] => .ok (.long option attached)
    | several => .error (.ambiguous word (several.map Prod.fst))
  | '-' :: letter :: rest =>
    match Flag.ofLetter? letter with
    | some f => .ok (.short f (some (String.ofList rest)))
    | none => .ok (.ofStray word)
  | _ => .ok (.operand word)

/-- The token of a word that is not the separator. -/
def Token.ofWord (word : String) : Except Error Token :=
  let cs := word.toList
  if cs.head? ≠ some '-' then .ok (.operand word)
  else
    match Opt.ofSpelling? word with
    | some option => .ok (ofOption cs option none)
    | none =>
      match splitEquals? cs with
      | none => ofDashed word
      | some (spelling, value) =>
        match Opt.ofSpelling? (String.ofList spelling) with
        | some option => .ok (ofOption spelling option (some (String.ofList value)))
        | none => ofDashed word

/-- The tokens of a command line. -/
def Token.ofWords : List String → Except Error (List Token)
  | [] => .ok []
  | word :: rest =>
    if word = doubleDash then .ok (.separator :: rest.map .operand)
    else do
      let token ← ofWord word
      let tokens ← ofWords rest
      return token :: tokens

end Chip8.CommandLine
