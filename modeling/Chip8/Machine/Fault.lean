import Chip8.Instruction.Basic
import Chip8.Machine.Basic

/-!
# Faults

The ways in which the machine fails, and operations on the machine that may fail.

A failing operation leaves the machine as it has changed it up to then.  That an instruction does
all its checks before its first change is a property of the instruction and not of the way it is
written down.
-/

namespace Chip8

/-- The ways in which the machine fails. -/
inductive Fault where
  | memory (e : MemoryError)
  /-- The word has no meaning. -/
  | unknownOpcode (pc : Int) (word : UInt16)
  /-- The machine does not execute the operation. -/
  | unsupportedOpcode (pc : Int) (word : UInt16) (mnemonic : Mnemonic)
  /-- A return without a call. -/
  | stackUnderflow (pc : Int) (word : UInt16)
  /-- A call with all slots of the stack in use. -/
  | stackOverflow (pc : Int) (word : UInt16)
  /-- A register with the number of a key beyond the keypad. -/
  | noSuchKey (pc : Int) (word : UInt16) (number : UInt8)
  /-- The keypad refuses a number. -/
  | keypad (e : NoSuchKey)
  /-- The screen refuses the position of a sprite. -/
  | position (e : FarPosition)
  /-- A call whose return address does not fit in a slot of the stack. -/
  | returnAddress (address : Int)
deriving DecidableEq, Repr

namespace Fault

open Numeral

/-- An access that leaves the memory. -/
abbrev outOfBounds (access : OutOfBounds) : Fault :=
  .memory (.outOfBounds access)

/-- The fault as a diagnostic, if it is one of the console's own.  A return address that does not
fit is a fault of the host's, which gave the machine more memory than a program can address. -/
def diagnostic? : Fault → Option Diagnostic
  | memory e => e.diagnostic?
  | unknownOpcode pc word => some (.invalidOpcode Diagnostic.unknownOpcode pc word.toNat)
  | unsupportedOpcode pc word mnemonic => some (.unsupportedOpcode mnemonic.name pc word.toNat)
  | stackUnderflow pc word => some (.stackUnderflow pc word.toNat)
  | stackOverflow pc word => some (.stackOverflow pc word.toNat)
  | noSuchKey pc word number =>
    some (.execution ("No such key " ++ decimal number.toNat) pc word.toNat)
  | keypad _ | position _ | returnAddress _ => none

end Fault

/-- What an operation leaves behind: the machine, and a result or the reason for failing. -/
structure Outcome (ε α : Type) where
  machine : Machine
  result : Except ε α

/-- An operation on the machine that may fail. -/
abbrev Exec (α : Type) := EStateM Fault Machine α

namespace Exec

variable {ε α : Type}

/-- Takes over a result, or fails with the fault that stands for its error. -/
def lift (fault : ε → Fault) : Except ε α → Exec α
  | .error e => throw (fault e)
  | .ok a => pure a

/-- What an operation leaves behind when it starts on a given machine. -/
def outcome (x : Exec α) (m : Machine) : Outcome Fault α :=
  match x.run m with
  | .ok a next => ⟨next, .ok a⟩
  | .error fault next => ⟨next, .error fault⟩

theorem run_get_bind (x : Machine → Exec α) (m : Machine) :
    EStateM.run (get >>= x) m = (x m).run m :=
  rfl

theorem run_modify_bind (f : Machine → Machine) (x : Unit → Exec α) (m : Machine) :
    EStateM.run (modify f >>= x) m = (x ()).run (f m) :=
  rfl

theorem run_throw (fault : Fault) (m : Machine) :
    EStateM.run (throw fault : Exec α) m = .error fault m :=
  rfl

theorem run_lift_ok (fault : ε → Fault) (a : α) (m : Machine) :
    (lift fault (.ok a)).run m = .ok a m :=
  rfl

end Exec

end Chip8
