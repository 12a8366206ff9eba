import Chip8.Numeral
import Chip8.Text.Printable

/-!
# Quoted text

Text between quotation marks, for messages that must show exactly what was given.  Single quotes
are used, unless the text holds a single quote and no double quote.  The quotation mark in use and
the backslash get a backslash in front; line feed, carriage return and tab have short escapes; any
other character that is not printable is written by its code point in two, four or eight
hexadecimal digits, the least of these that suffices.
-/

namespace Chip8.Text

open Numeral

def singleQuote : Char := '\x27'

def doubleQuote : Char := '\x22'

/-- The quotation mark for a text. -/
def quoteMark (cs : List Char) : Char :=
  if cs.contains singleQuote && !cs.contains doubleQuote then doubleQuote else singleQuote

/-- The escape of a character by its code point. -/
def codePointEscape (c : Char) : List Char :=
  if c.toNat < 0x100 then '\\' :: 'x' :: hexChars .lower 2 c.toNat
  else if c.toNat < 0x10000 then '\\' :: 'u' :: hexChars .lower 4 c.toNat
  else '\\' :: 'U' :: hexChars .lower 8 c.toNat

/-- One character as it stands between two quotation marks `mark`. -/
def quoteChar (mark c : Char) : List Char :=
  if c = mark || c = '\\' then ['\\', c]
  else if c = '\n' then ['\\', 'n']
  else if c = '\r' then ['\\', 'r']
  else if c = '\t' then ['\\', 't']
  else if isPrintable c then [c]
  else codePointEscape c

def quoteChars (cs : List Char) : List Char :=
  let mark := quoteMark cs
  mark :: cs.flatMap (quoteChar mark) ++ [mark]

/-- The text between quotation marks. -/
def quoted (text : String) : String :=
  String.ofList (quoteChars text.toList)

end Chip8.Text
