import Chip8.CommandLine.Token
import Chip8.Text.Integer

/-!
# Requests

What a command line asks for: the help text, or a run with certain settings.

The tokens are taken from left to right.  The first operand is the program file; a separator right
in front of it or right behind it belongs to it.  An option that takes a value takes the next token
if it is an operand.  Of an option that is given several times the last value counts; two dashes
attached as a value are no value, and leave the amount without one.  Asking for help ends the
reading at once, so errors further right do not matter; errors about single words matter first of
all.
-/

namespace Chip8.CommandLine

open Text

/-- What the tokens up to some point have given. -/
structure Given where
  rom? : Option String
  /-- The values of the amounts, as far as they have one. -/
  value : Amount → Option Int
  verbose : Bool
  /-- The words that mean nothing here. -/
  leftOver : List String

namespace Given

/-- Nothing is given yet. -/
def nothing : Given where
  rom? := none
  value := fun a => some a.standard
  verbose := false
  leftOver := []

/-- With a word more that means nothing here. -/
def withLeftOver (g : Given) (word : String) : Given :=
  { g with leftOver := g.leftOver ++ [word] }

/-- With a value for an amount, or with none. -/
def withValue (g : Given) (a : Amount) (n : Option Int) : Given :=
  { g with value := fun b => if b = a then n else g.value b }

end Given

/-- Why the reading of tokens ends early. -/
inductive Stop where
  | help
  | refused (e : Error)

/-- The flags of one word: the first one and those whose letters follow it without a gap. -/
def flagCluster (first : Flag) (letters : List Char) : Except Error (List Flag) :=
  match letters with
  | [] => .ok [first]
  | letter :: rest =>
    match Flag.ofLetter? letter with
    | none => .error (.valueIgnored (.flag first) (String.ofList letters))
    | some next => (flagCluster next rest).map (first :: ·)

/-- The flags that a short option stands for.  An empty value is refused like any other. -/
def flagsOf (first : Flag) : Option String → Except Error (List Flag)
  | none => .ok [first]
  | some attached =>
    if attached = "" then .error (.valueIgnored (.flag first) attached)
    else flagCluster first attached.toList

/-- Takes over flags one after the other. -/
def takeFlags : List Flag → Given → Except Stop Given
  | [], g => .ok g
  | .help :: _, _ => .error .help
  | .verbose :: rest, g => takeFlags rest { g with verbose := true }

/-- Takes over the value of an amount. -/
def takeValue (a : Amount) (word : String) (g : Given) : Except Stop Given :=
  match readInt? word with
  | some n => .ok (g.withValue a (some n))
  | none => .error (.refused (.notANumber a word))

/-- Takes over the attached value of an amount. -/
def takeAttached (a : Amount) (text : String) (g : Given) : Except Stop Given :=
  if text = doubleDash then .ok (g.withValue a none) else takeValue a text g

/-- Takes over all tokens. -/
def takeTokens : List Token → Given → Except Stop Given
  | [], g => .ok g
  | .operand word :: rest, g =>
    match g.rom?, rest with
    | none, .separator :: rest => takeTokens rest { g with rom? := some word }
    | none, rest => takeTokens rest { g with rom? := some word }
    | some _, rest => takeTokens rest (g.withLeftOver word)
  | .separator :: rest, g =>
    match g.rom?, rest with
    | none, .operand word :: rest => takeTokens rest { g with rom? := some word }
    | _, rest => takeTokens rest (g.withLeftOver doubleDash)
  | .unknown word :: rest, g => takeTokens rest (g.withLeftOver word)
  | .short first attached :: rest, g =>
    match flagsOf first attached with
    | .error e => .error (.refused e)
    | .ok flags => do takeTokens rest (← takeFlags flags g)
  | .long (.flag f) (some value) :: _, _ => .error (.refused (.valueIgnored (.flag f) value))
  | .long (.flag f) none :: rest, g => do takeTokens rest (← takeFlags [f] g)
  | .long (.amount a) (some text) :: rest, g => do takeTokens rest (← takeAttached a text g)
  | .long (.amount a) none :: .operand value :: rest, g => do
    takeTokens rest (← takeValue a value g)
  | .long (.amount a) none :: _, _ => .error (.refused (.valueExpected (.amount a)))

/-- The settings for what was given.  A missing program file is reported before words that mean
nothing, and these before amounts that are refused. -/
def Given.settings (g : Given) : Except Error Settings :=
  match g.rom? with
  | none => .error .romMissing
  | some rom =>
    if g.leftOver ≠ [] then .error (.unrecognized g.leftOver)
    else (Settings.ofValues rom g.value g.verbose).mapError .badAmount

inductive Request where
  | help
  | run (settings : Settings)

/-- Reads a command line. -/
def Request.ofArguments (words : List String) : Except Error Request := do
  let tokens ← Token.ofWords words
  match takeTokens tokens .nothing with
  | .error .help => return .help
  | .error (.refused e) => throw e
  | .ok given => return .run (← given.settings)

end Chip8.CommandLine
