import Chip8.Settings

/-!
# Options

The options of the command line and their spellings.  A long option may be cut short as long as
only one option begins that way.
-/

namespace Chip8.CommandLine

/-- The options that take no value. -/
inductive Flag where
  | help
  | verbose
deriving DecidableEq, Repr

inductive Opt where
  | flag (f : Flag)
  | amount (a : Amount)
deriving DecidableEq, Repr

/-- The long spelling of an amount. -/
def amountSpelling : Amount → String
  | .scale => "--scale"
  | .cpuHz => "--cpu-hz"
  | .timerHz => "--timer-hz"

/-- The flag of a single letter. -/
def Flag.ofLetter? : Char → Option Flag
  | 'h' => some .help
  | 'v' => some .verbose
  | _ => none

/-- The long spellings, in the order in which the help lists them. -/
def longOptions : List (String × Opt) := [
  ("--help", .flag .help),
  (amountSpelling .scale, .amount .scale),
  (amountSpelling .cpuHz, .amount .cpuHz),
  (amountSpelling .timerHz, .amount .timerHz),
  ("--verbose", .flag .verbose)]

/-- The option with exactly this spelling. -/
def Opt.ofSpelling? (word : String) : Option Opt :=
  match word.toList with
  | ['-', letter] => (Flag.ofLetter? letter).map .flag
  | _ => longOptions.lookup word

/-- The long options that begin with a text. -/
def Opt.candidates (start : List Char) : List (String × Opt) :=
  longOptions.filter fun entry => start.isPrefixOf entry.1.toList

/-- All spellings of an option, as errors show them. -/
def Opt.label : Opt → String
  | .flag .help => "-h/--help"
  | .flag .verbose => "--verbose/-v"
  | .amount a => amountSpelling a

end Chip8.CommandLine
