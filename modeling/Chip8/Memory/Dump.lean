import Chip8.Memory.Basic

/-!
# Memory dumps

Bytes as text: each line has the address of its first byte, a colon, and two hexadecimal digits for
each byte.  The lines are full but for the last.
-/

namespace Chip8.Memory

open Numeral

/-- The number of bytes in a line, if nothing else is asked for. -/
def dumpWidth : Nat := 16

/-- One line of a dump. -/
def dumpLine (address : Int) (row : List UInt8) : String :=
  hex 3 address ++ ": " ++ " ".intercalate (row.map byteHex)

/-- The lines for a list of bytes that starts at an address.  A line of no bytes shows nothing, so
with width zero there are no lines. -/
def dumpLines (width : Nat) (address : Int) (bytes : List UInt8) : List String :=
  if bytes = [] ∨ width = 0 then []
  else dumpLine address (bytes.take width) ::
    dumpLines width (address + width) (bytes.drop width)
termination_by bytes.length
decreasing_by
  have : 0 < bytes.length := List.length_pos_iff.mpr (by simp_all)
  rw [List.length_drop]
  omega

/-- The lines for a list of bytes as one text. -/
def dumpText (width : Nat) (address : Int) (bytes : List UInt8) : String :=
  "\n".intercalate (dumpLines width address bytes)

/-- The dump of a range, to the end of the memory if no length is given.  The range is checked
before the width; a negative width leaves no room for any line. -/
def dump (m : Memory) (start : Int) (length? : Option Int) (width : Int) :
    Except MemoryError String :=
  match m.read start (length?.getD (m.size - start)) with
  | .error e => .error e
  | .ok bytes => if width = 0 then .error .zeroWidth else .ok (dumpText width.toNat start bytes)

/-- A range inside the memory can be dumped at any width but zero. -/
theorem dump_of_inBounds {m : Memory} {start width : Int} {length : Nat}
    (h : m.InBounds start length) (hwidth : width ≠ 0) :
    m.dump start (some length) width =
      .ok (dumpText width.toNat start (m.slice start.toNat length)) := by
  unfold dump read
  rw [Option.getD_some, if_pos h]
  simp only [if_neg hwidth, Int.toNat_natCast]

/-- A program that has been loaded can be dumped, and the dump shows its bytes. -/
theorem dump_of_load {m loaded : Memory} {rom : List UInt8} (h : m.load rom = .ok loaded) :
    loaded.dump programStart (some rom.length) dumpWidth =
      .ok (dumpText dumpWidth programStart rom) := by
  obtain ⟨hroom, rfl⟩ := load_eq_ok_iff.mp h
  have hrange : (image m.size rom).InBounds programStart rom.length := by
    unfold InBounds
    rw [size_image hroom]
    omega
  rw [dump_of_inBounds hrange (by decide), Int.toNat_natCast, Int.toNat_natCast,
    slice_image hroom]

end Chip8.Memory
