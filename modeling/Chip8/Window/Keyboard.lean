import Chip8.Keypad.Layout

/-!
# Keyboards

The keyboard of a host lists the symbols of its keys by their names.  The window asks it for the keys
of the layout and for two keys of its own: the escape key, which closes the window, and the first
function key, which switches tracing.

On the standard keyboard a key of a character has the code of that character, in lower case, as its
symbol; other keys have symbols beyond all characters.
-/

namespace Chip8

/-- A keyboard that lists all keys that the window asks for. -/
structure Keyboard where
  /-- The symbol that is listed under a name. -/
  symbol? : String → Option Int
  layout_listed : ∀ key ∈ keyLayout.toList, symbol? (symbolName key) ≠ none
  escape : Int
  escape_listed : symbol? "ESCAPE" = some escape
  /-- The symbol of the first function key. -/
  trace : Int
  trace_listed : symbol? "F1" = some trace
  trace_ne_escape : trace ≠ escape

namespace Keyboard

/-- The keypad keys of the symbols of the layout. -/
def keymap (keyboard : Keyboard) : Keymap :=
  match Keymap.ofHost keyboard.symbol? with
  | .ok map => map
  | .error _ => .empty

/-! ## The standard keyboard -/

/-- The symbols of the standard keyboard. -/
def standardSymbol? (name : String) : Option Int :=
  match name.toList with
  | ['_', c] => if c.isDigit then some c.toNat else none
  | [c] => if c.isUpper then some c.toLower.toNat else none
  | _ => if name = "ESCAPE" then some 65307
    else if name = "F1" then some 65470
    else none

theorem standardSymbol?_layout :
    ∀ key ∈ keyLayout.toList, standardSymbol? (symbolName key) ≠ none := by
  have hlisted : keyLayout.toList.all fun key => (standardSymbol? (symbolName key)).isSome := by
    decide
  intro key hkey
  exact Option.isSome_iff_ne_none.mp (List.all_eq_true.mp hlisted key hkey)

def standard : Keyboard where
  symbol? := standardSymbol?
  layout_listed := standardSymbol?_layout
  escape := 65307
  escape_listed := rfl
  trace := 65470
  trace_listed := rfl
  trace_ne_escape := by decide

end Keyboard

end Chip8
