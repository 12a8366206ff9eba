/-!
# Numerals

Whole numbers as text: the digits of a number in a base, decimal text with a sign, and hexadecimal
text padded with zeros to a least width.  In padded text the sign counts in the width, so `-1` in
three places is `-01`.

Decimal text has a limit.  A number with more digits than that is not written, and whoever wants to
show it fails (`Numeral.write`).  Hexadecimal text has none.

The functions work on `List Char`; the `String` versions wrap them.
-/

namespace Chip8.Numeral

/-! ## Digits -/

/-- The digits of `n`, most significant first.  Zero has one digit, and so has every number in a
base below two. -/
def digits (base n : Nat) : List Nat :=
  if n < base ∨ base < 2 then [n] else digits base (n / base) ++ [n % base]
termination_by n
decreasing_by exact Nat.div_lt_self (by omega) (by omega)

/-- The number that a list of digits stands for, most significant first. -/
def value (base : Nat) (ds : List Nat) : Nat :=
  ds.foldl (fun n d => n * base + d) 0

/-- The two sets of letters for the digits from ten on. -/
inductive LetterCase where
  | lower
  | upper
deriving DecidableEq, Repr

/-- The character of a digit below sixteen. -/
def digitChar (letters : LetterCase) (d : Nat) : Char :=
  if d < 10 then Char.ofNat (48 + d)
  else match letters with
    | .lower => Char.ofNat (87 + d)
    | .upper => Char.ofNat (55 + d)

/-- The text of a natural number. -/
def natChars (letters : LetterCase) (base n : Nat) : List Char :=
  (digits base n).map (digitChar letters)

/-! ## Decimal text -/

/-- Decimal text, with a minus sign in front of a negative number. -/
def decimalChars (n : Int) : List Char :=
  if n < 0 then '-' :: natChars .lower 10 n.natAbs else natChars .lower 10 n.natAbs

/-- Decimal text of a number that is known to be small: a byte, or the size of something that
exists. -/
def decimal (n : Int) : String :=
  String.ofList (decimalChars n)

/-- The most digits that a number may have where decimal text is written or read. -/
def digitLimit : Nat := 4300

/-- Whether a number has no more digits than may be written.  The sign does not count. -/
def Writable (n : Int) : Prop :=
  (digits 10 n.natAbs).length ≤ digitLimit

instance (n : Int) : Decidable (Writable n) :=
  inferInstanceAs (Decidable (_ ≤ _))

/-- A number with too many digits to be written. -/
structure TooManyDigits where
  number : Int
deriving DecidableEq, Repr

def TooManyDigits.message (_ : TooManyDigits) : String :=
  "Exceeds the limit (" ++ decimal digitLimit ++ " digits) for integer string conversion; " ++
    "use sys.set_int_max_str_digits() to increase the limit"

/-- Decimal text of any number, if it may be written. -/
def write (n : Int) : Except TooManyDigits String :=
  if Writable n then .ok (decimal n) else .error ⟨n⟩

/-- A number has no more digits than it counts, but for zero. -/
theorem length_digits_le_succ {base n : Nat} : (digits base n).length ≤ n + 1 := by
  fun_induction digits base n with
  | case1 n hsmall => simp
  | case2 n hlarge ih =>
    have hless : n / base < n := Nat.div_lt_self (by omega) (by omega)
    rw [List.length_append, List.length_singleton]
    omega

/-- Numbers up to some thousands may be written. -/
theorem writable_of_lt {n : Nat} (h : n < digitLimit) : Writable n :=
  Nat.le_trans length_digits_le_succ h

/-! ## Hexadecimal text -/

/-- Hexadecimal text filled up with zeros to at least `width` characters.  The sign of a negative
number stands in front of the zeros and counts in the width. -/
def hexChars (letters : LetterCase) (width : Nat) (n : Int) : List Char :=
  if n < 0 then '-' :: (natChars letters 16 n.natAbs).leftpad (width - 1) '0'
  else (natChars letters 16 n.natAbs).leftpad width '0'

/-- Upper-case hexadecimal text of at least `width` characters. -/
def hex (width : Nat) (n : Int) : String :=
  String.ofList (hexChars .upper width n)

/-- Lower-case hexadecimal text of at least `width` digits behind the mark `0x`. -/
def markedHex (width : Nat) (n : Nat) : String :=
  "0x" ++ String.ofList (hexChars .lower width n)

/-- A byte as two upper-case digits. -/
def byteHex (b : UInt8) : String :=
  hex 2 b.toNat

end Chip8.Numeral
