import Chip8.Disk
import Chip8.Logger
import Chip8.Memory.Dump
import Chip8.Text.Quoted

/-!
# Program files

Reading a program into a memory of the standard size.  If tracing is on, the name and the length of
the program are written before it is loaded, and its bytes afterwards.
-/

namespace Chip8

/-- The ways in which a program file gives no memory. -/
inductive RomError where
  /-- The name of the file holds the character zero. -/
  | zeroInName
  /-- The system has no encoding for the name of the file. -/
  | notEncodable (reason : String)
  | unreadable (path : String) (problem : FileProblem)
  | memory (e : MemoryError)
deriving DecidableEq, Repr

namespace RomError

open Numeral

/-- The diagnostic for a file that the system does not let us read. -/
def notRead (path : String) (problem : FileProblem) : Diagnostic :=
  .configuration ("Error reading ROM " ++ path ++ ": [Errno " ++ decimal problem.code.toNat ++ "] " ++
    problem.text ++ if problem.named then ": " ++ Text.quoted path else "")

/-- The failure as a diagnostic, if it is one of the console's own. -/
def diagnostic? : RomError → Option Diagnostic
  | zeroInName | notEncodable _ => none
  | unreadable path problem => some (notRead path problem)
  | memory e => e.diagnostic?

def message : RomError → String
  | zeroInName => "embedded null byte"
  | notEncodable reason => reason
  | unreadable path problem => (notRead path problem).text
  | memory e => e.message

/-- The failure to read a file. -/
def ofRead (path : String) : ReadError → RomError
  | .zeroInName => zeroInName
  | .notEncodable reason => notEncodable reason
  | .refused problem => unreadable path problem

end RomError

namespace Rom

/-- The message that announces a program. -/
def announcement (path : String) (rom : List UInt8) : String :=
  Logger.message [.text "Loading ROM:", .text path,
    .text ("(" ++ Numeral.decimal rom.length ++ " bytes)")]

/-- The memory with the program of a file, given what reading the file has brought, and what is
written meanwhile. -/
def loadFile (logger : Logger) (path : String) (contents : Except ReadError (List UInt8)) :
    Except RomError Memory × List LogEntry :=
  match contents with
  | .error e => (.error (.ofRead path e), [])
  | .ok rom =>
    let announced := logger.logAll fun _ => [announcement path rom]
    match (Memory.blank Memory.standardSize).load rom with
    | .error e => (.error (.memory e), announced)
    | .ok memory =>
      if logger.on && rom != [] then
        match memory.dump Memory.programStart (some rom.length) Memory.dumpWidth with
        | .error e => (.error (.memory e), announced)
        | .ok listing => (.ok memory, announced ++ logger.log listing)
      else (.ok memory, announced)

/-- The memory with the program of a file, without a word about it. -/
def load (path : String) (contents : Except ReadError (List UInt8)) : Except RomError Memory := do
  let rom ← contents.mapError (.ofRead path)
  ((Memory.blank Memory.standardSize).load rom).mapError .memory

theorem load_ok (path : String) (rom : List UInt8) :
    load path (.ok rom) = ((Memory.blank Memory.standardSize).load rom).mapError .memory :=
  rfl

/-- A program is loaded if there is a file with it and room for it. -/
theorem load_eq_ok_iff {path : String} {contents : Except ReadError (List UInt8)}
    {memory : Memory} :
    load path contents = .ok memory ↔
      ∃ rom, contents = .ok rom ∧ Memory.programStart + rom.length ≤ Memory.standardSize ∧
        memory = .image Memory.standardSize rom := by
  cases contents with
  | error e =>
    constructor
    · intro h
      cases h
    · rintro ⟨rom, hrom, -, -⟩
      cases hrom
  | ok rom =>
    rw [load_ok, Memory.load, Memory.size_blank]
    split
    next hroom =>
      show (Except.ok _ : Except RomError Memory) = .ok memory ↔ _
      simp [hroom, eq_comm]
    next hroom =>
      show (Except.error _ : Except RomError Memory) = .ok memory ↔ _
      simp [hroom]

/-- The only failures to load a program that the console cannot report are names with the character
zero in them and names that cannot be encoded. -/
theorem diagnostic?_of_load {path : String} {contents : Except ReadError (List UInt8)} {e : RomError}
    (h : load path contents = .error e) :
    e.diagnostic? = none ↔
      contents = .error .zeroInName ∨ ∃ reason, contents = .error (.notEncodable reason) := by
  rcases contents with (_ | reason | problem) | rom
  · cases h
    simp [RomError.ofRead, RomError.diagnostic?]
  · cases h
    simp [RomError.ofRead, RomError.diagnostic?]
  · cases h
    simp [RomError.ofRead, RomError.diagnostic?]
  · rw [load_ok, Memory.load] at h
    split at h
    · cases h
    · cases h
      simp [RomError.diagnostic?, MemoryError.diagnostic?]

/-- Telling of a program never keeps it from being loaded: what is loaded can be listed. -/
theorem fst_loadFile (logger : Logger) (path : String)
    (contents : Except ReadError (List UInt8)) :
    (loadFile logger path contents).1 = load path contents := by
  cases contents with
  | error e => rfl
  | ok rom =>
    rw [load_ok, loadFile]
    cases hload : (Memory.blank Memory.standardSize).load rom with
    | error e => rfl
    | ok memory =>
      simp only [Memory.dump_of_load hload]
      split <;> rfl

/-- With tracing off nothing is written about a program. -/
theorem entries_of_off {logger : Logger} (h : logger.on = false) (path : String)
    (contents : Except ReadError (List UInt8)) : (loadFile logger path contents).2 = [] := by
  cases contents with
  | error e => rfl
  | ok rom =>
    simp only [loadFile, Logger.logAll_of_off h, h, Bool.false_and]
    cases (Memory.blank Memory.standardSize).load rom <;> rfl

end Rom

end Chip8
