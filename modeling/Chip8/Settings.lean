import Chip8.Numeral

/-!
# Settings

The options of one run of the console: the program file, three amounts that must be there and be
positive, and whether tracing is on from the start.
-/

namespace Chip8

/-- The options that are numbers. -/
inductive Amount where
  /-- The side of the square that shows a pixel of the screen. -/
  | scale
  /-- Instructions in a second. -/
  | cpuHz
  /-- Counts of the delay timer in a second. -/
  | timerHz
deriving DecidableEq, Repr

namespace Amount

/-- All amounts, in the order in which they are checked. -/
def all : List Amount :=
  [scale, cpuHz, timerHz]

/-- The name under which an amount is reported. -/
def name : Amount → String
  | scale => "scale"
  | cpuHz => "cpu_hz"
  | timerHz => "timer_hz"

/-- The amount if nothing else is asked for. -/
def standard : Amount → Nat
  | scale => 10
  | cpuHz => 60
  | timerHz => 60

end Amount

/-- The options of a run. -/
structure Settings where
  rom : String
  amount : Amount → Nat
  amount_pos : ∀ a, 0 < amount a
  /-- Whether tracing is on from the start. -/
  verbose : Bool

/-- The ways in which an amount is refused. -/
inductive AmountError where
  /-- The amount has no value at all. -/
  | missing (amount : Amount)
  | notPositive (amount : Amount) (value : Int)
  /-- The amount is not positive, and has too many digits to be named. -/
  | tooManyDigits (e : Numeral.TooManyDigits)
deriving DecidableEq, Repr

def AmountError.message : AmountError → String
  | missing amount => amount.name ++ " has no value"
  | notPositive amount value =>
    amount.name ++ " must be positive, got " ++ Numeral.decimal value
  | tooManyDigits e => e.message

theorem Amount.toNat_pos {value : Int} (h : 0 < value) : 0 < value.toNat :=
  Int.lt_toNat.mpr h

/-- A value for an amount, if it is a positive number. -/
def Amount.check (a : Amount) : Option Int → Except AmountError { n : Nat // 0 < n }
  | none => .error (.missing a)
  | some value =>
    if h : 0 < value then .ok ⟨value.toNat, toNat_pos h⟩
    else if Numeral.Writable value then .error (.notPositive a value)
    else .error (.tooManyDigits ⟨value⟩)

namespace Settings

def scale (s : Settings) : Nat := s.amount .scale

def cpuHz (s : Settings) : Nat := s.amount .cpuHz

def timerHz (s : Settings) : Nat := s.amount .timerHz

/-- The settings with given values.  The first amount that has none, or none that is positive, is
refused. -/
def ofValues (rom : String) (value : Amount → Option Int) (verbose : Bool) :
    Except AmountError Settings := do
  let scale ← Amount.scale.check (value .scale)
  let cpuHz ← Amount.cpuHz.check (value .cpuHz)
  let timerHz ← Amount.timerHz.check (value .timerHz)
  let checked : Amount → { n : Nat // 0 < n }
    | .scale => scale
    | .cpuHz => cpuHz
    | .timerHz => timerHz
  return {
    rom := rom
    amount := fun a => (checked a).val
    amount_pos := fun a => (checked a).property
    verbose := verbose }

end Settings

end Chip8
