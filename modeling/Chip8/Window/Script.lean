import Chip8.Text.Integer
import Chip8.Window.Event

/-!
# Event scripts

Events as lines of text, for a host without a keyboard and a clock of its own.  A line is the name
of an event, followed by the symbol of the key for the events of keys.
-/

namespace Chip8.WindowEvent

/-- The words of a line, without the blanks between them. -/
def words (line : List Char) : List (List Char) :=
  let (word, rest) := line.foldr
    (fun c (word, rest) => if Text.isBlank c then ([], word :: rest) else (c :: word, rest))
    ([], [])
  (word :: rest).filter (· ≠ [])

/-- The event of a line; `none` if the line is none. -/
def ofLine? (line : String) : Option WindowEvent :=
  match (words line.toList).map String.ofList with
  | ["cpu"] => some .cpuTick
  | ["timer"] => some .timerTick
  | ["press", symbol] => (Text.readInt? symbol).map .keyPress
  | ["release", symbol] => (Text.readInt? symbol).map .keyRelease
  | ["draw"] => some .draw
  | ["close"] => some .close
  | ["deactivate"] => some .deactivate
  | _ => none

end Chip8.WindowEvent
