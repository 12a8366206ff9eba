import Chip8.Keypad.Basic

/-!
# Host keys

The layout names a key of the host's keyboard for each key of the keypad.  A host numbers its keys
by symbols; a keymap takes these symbols to keypad keys.  Where two keys have one symbol, the later
key has it.
-/

namespace Chip8

/-- The host key for each key of the keypad, from zero on. -/
def keyLayout : Vector Char 16 :=
  #v['X', '1', '2', '3', 'Q', 'W', 'E', 'A', 'S', 'D', 'Z', 'C', '4', 'R', 'F', 'V']

/-- The name under which a host lists the symbol of a key.  The names of digits begin with an
underscore. -/
def symbolName (key : Char) : String :=
  if key.isDigit then String.ofList ['_', key] else String.ofList [key]

/-- The keypad keys of host symbols, at most one for a symbol. -/
structure Keymap where
  entries : List (Int × Fin 16)
deriving DecidableEq, Repr

namespace Keymap

def empty : Keymap := ⟨[]⟩

/-- The key of a symbol. -/
def find? (m : Keymap) (symbol : Int) : Option (Fin 16) :=
  m.entries.lookup symbol

/-- The keymap with one entry more.  An older entry for the symbol is dropped. -/
def insert (m : Keymap) (symbol : Int) (key : Fin 16) : Keymap :=
  ⟨(symbol, key) :: m.entries.filter fun e => e.1 != symbol⟩

/-- Adds the keys of a list in its order.  Fails with the first name that the host does not
list. -/
def addKeys (symbol? : String → Option Int) : List (Fin 16) → Keymap → Except String Keymap
  | [], m => .ok m
  | k :: ks, m =>
    match symbol? (symbolName (keyLayout[k])) with
    | none => .error (symbolName (keyLayout[k]))
    | some symbol => addKeys symbol? ks (m.insert symbol k)

/-- The keymap for a host that lists its symbols by name. -/
def ofHost (symbol? : String → Option Int) : Except String Keymap :=
  addKeys symbol? (List.finRange 16) empty

end Keymap

end Chip8
