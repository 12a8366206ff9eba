import Chip8.Numeral

/-!
# Diagnostics

Everything that can go wrong while the console is set up or a program runs, with the wording that
the user sees.  An execution diagnostic names the address and the word of the instruction at fault.

The kinds of diagnostics form a tree: each kind but the most general one has a broader kind that
includes it.
-/

namespace Chip8

/-! ## Kinds -/

/-- The kinds of diagnostics. -/
inductive DiagnosticKind where
  | general
  | configuration
  | address
  | execution
  | invalidOpcode
  | unsupportedOpcode
  | stack
  | stackOverflow
  | stackUnderflow
deriving DecidableEq, Repr

namespace DiagnosticKind

/-- The next broader kind. -/
def broader? : DiagnosticKind → Option DiagnosticKind
  | general => none
  | configuration | address | execution => some general
  | invalidOpcode | stack => some execution
  | unsupportedOpcode => some invalidOpcode
  | stackOverflow | stackUnderflow => some stack

/-- The number of kinds above this one. -/
def depth : DiagnosticKind → Nat
  | general => 0
  | configuration | address | execution => 1
  | invalidOpcode | stack => 2
  | unsupportedOpcode | stackOverflow | stackUnderflow => 3

/-- A broader kind is one step nearer to the top. -/
theorem depth_of_broader? {kind above : DiagnosticKind} (h : kind.broader? = some above) :
    kind.depth = above.depth + 1 := by
  cases kind <;> simp [broader?] at h <;> subst h <;> rfl

/-- The kind and all broader ones, ending with the most general. -/
def lineage (kind : DiagnosticKind) : List DiagnosticKind :=
  match _h : kind.broader? with
  | none => [kind]
  | some above => kind :: lineage above
termination_by kind.depth
decreasing_by have := depth_of_broader? _h; omega

end DiagnosticKind

/-! ## Diagnostics -/

/-- A failure with what is known about it. -/
inductive Diagnostic where
  | general (text : String)
  /-- A program file that cannot be read or does not fit, or a bad command line. -/
  | configuration (text : String)
  /-- An access to `length` bytes from `address` that leaves the memory.  There is none for a length
  that may not be written. -/
  | address (address length : Int)
  | execution (text : String) (pc opcode : Int)
  /-- A word without meaning. -/
  | invalidOpcode (text : String) (pc opcode : Int)
  /-- A known operation that the machine does not execute. -/
  | unsupportedOpcode (mnemonic : String) (pc opcode : Int)
  | stack (text : String) (pc opcode : Int)
  | stackOverflow (pc opcode : Int)
  | stackUnderflow (pc opcode : Int)
deriving DecidableEq, Repr

namespace Diagnostic

open Numeral

def kind : Diagnostic → DiagnosticKind
  | general _ => .general
  | configuration _ => .configuration
  | address _ _ => .address
  | execution _ _ _ => .execution
  | invalidOpcode _ _ _ => .invalidOpcode
  | unsupportedOpcode _ _ _ => .unsupportedOpcode
  | stack _ _ _ => .stack
  | stackOverflow _ _ => .stackOverflow
  | stackUnderflow _ _ => .stackUnderflow

/-- The wording for a bad access, whose length may be written; a single byte is named without it. -/
def addressText (address length : Int) : String :=
  if length = 1 then "Address out of bounds: 0x" ++ hex 0 address
  else "Address range out of bounds: 0x" ++ hex 0 address ++ " (+" ++ decimal length ++ ")"

/-- A text with the place of the instruction at fault. -/
def located (text : String) (pc opcode : Int) : String :=
  text ++ " at PC=0x" ++ hex 3 pc ++ " (opcode 0x" ++ hex 4 opcode ++ ")"

/-- The wording for a word without meaning. -/
def unknownOpcode : String := "Unknown opcode"

/-- The line that the user sees. -/
def text : Diagnostic → String
  | general text | configuration text => text
  | address start length => addressText start length
  | execution text pc opcode => located text pc opcode
  | invalidOpcode text pc opcode => located text pc opcode
  | unsupportedOpcode mnemonic pc opcode => located ("Unsupported opcode " ++ mnemonic) pc opcode
  | stack text pc opcode => located text pc opcode
  | stackOverflow pc opcode => located "Stack overflow on CALL" pc opcode
  | stackUnderflow pc opcode => located "Stack underflow on RET" pc opcode

/-- The address and the word of the instruction at fault, if the diagnostic is about one. -/
def place? : Diagnostic → Option (Int × Int)
  | general .. | configuration .. | .address .. => none
  | execution _ pc opcode | invalidOpcode _ pc opcode | unsupportedOpcode _ pc opcode
  | stack _ pc opcode | stackOverflow pc opcode | stackUnderflow pc opcode => some (pc, opcode)

end Diagnostic

end Chip8
