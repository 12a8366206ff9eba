import Chip8.Notice
import Chip8.Proofs.Hexadecimal
import Mathlib.Data.List.TakeWhile

/-!
# The wording of diagnostics

A diagnostic is a text for people, but it says all that is known of the failure.  Behind the text of
a located diagnostic stand the address and the word of the instruction in two hexadecimal numbers,
and each of them is marked with an `x`, which no digit is.  So they are found from the end of the
line, whatever the text in front says (`Diagnostic.readLocated_located`).  The diagnostic of a bad
access is read from its last `x` on (`Diagnostic.readAccess_addressText`).

The main result is `Diagnostic.texts_tell_failures`.
-/

namespace Chip8

open Numeral

/-! ## The last mark -/

/-- What stands before and behind the last occurrence of a character. -/
def splitLast (c : Char) (cs : List Char) : List Char × List Char :=
  ((cs.reverse.dropWhile (· ≠ c)).tail.reverse, (cs.reverse.takeWhile (· ≠ c)).reverse)

theorem splitLast_append {c : Char} (before : List Char) {behind : List Char} (h : c ∉ behind) :
    splitLast c (before ++ c :: behind) = (before, behind) := by
  have hne : ∀ d ∈ behind.reverse, decide (d ≠ c) = true :=
    forall_ne_of_not_mem (mt List.mem_reverse.mp h)
  have hreverse : (before ++ c :: behind).reverse = behind.reverse ++ c :: before.reverse := by
    simp
  rw [splitLast, hreverse, List.dropWhile_append_of_pos hne, List.takeWhile_append_of_pos hne]
  simp

namespace Diagnostic

/-- No digit is an `x`. -/
theorem x_not_mem_hexChars (width : Nat) (n : Int) : 'x' ∉ hexChars .upper width n :=
  not_mem_hexChars (by decide) (by decide) n

/-! ## Located diagnostics -/

/-- A text with the place of the instruction at fault. -/
structure Located where
  text : String
  pc : Int
  opcode : Int
deriving DecidableEq, Repr

/-- Reads a text with a place: the word behind the last `x`, the address behind the last but one,
and the text in front of it. -/
def readLocated (cs : List Char) : Located :=
  let (front, opcode) := splitLast 'x' cs
  let (text, pc) := splitLast 'x' front
  { text := String.ofList (text.take (text.length - " at PC=0".toList.length))
    pc := hexInt (pc.takeWhile (· ≠ ' '))
    opcode := hexInt opcode.dropLast }

theorem toList_located (text : String) (pc opcode : Int) :
    (located text pc opcode).toList =
      ((text.toList ++ " at PC=0".toList) ++
        'x' :: (hexChars .upper 3 pc ++ " (opcode 0".toList)) ++
          'x' :: (hexChars .upper 4 opcode ++ [')']) := by
  simp [located]

/-- The place of a failure can be read back, and so can the text in front of it. -/
theorem readLocated_located (text : String) (pc opcode : Int) :
    readLocated (located text pc opcode).toList = ⟨text, pc, opcode⟩ := by
  have hopcode : 'x' ∉ hexChars .upper 4 opcode ++ [')'] := by
    simp [x_not_mem_hexChars]
  have hpc : 'x' ∉ hexChars .upper 3 pc ++ " (opcode 0".toList := by
    simp [x_not_mem_hexChars]
  have hdigits : ∀ c ∈ hexChars .upper 3 pc, decide (c ≠ ' ') = true :=
    forall_ne_of_not_mem (blank_not_mem_hexChars .upper 3 pc)
  rw [toList_located, readLocated]
  simp only [splitLast_append _ hopcode, splitLast_append _ hpc,
    List.takeWhile_append_of_pos hdigits, List.dropLast_concat, hexInt_hexChars]
  simp [hexInt_hexChars]

theorem located_eq_iff {text text' : String} {pc pc' opcode opcode' : Int} :
    located text pc opcode = located text' pc' opcode' ↔
      text = text' ∧ pc = pc' ∧ opcode = opcode' := by
  constructor
  · intro h
    have hread := congrArg (fun line => readLocated line.toList) h
    simpa only [readLocated_located, Located.mk.injEq] using hread
  · rintro ⟨rfl, rfl, rfl⟩
    rfl

/-- A diagnostic with a place is some text with this place. -/
theorem exists_located {d : Diagnostic} {pc opcode : Int} (h : d.place? = some (pc, opcode)) :
    ∃ text, d.text = located text pc opcode := by
  cases d <;> cases h <;> exact ⟨_, rfl⟩

/-! ## Bad accesses -/

/-- Reads the address and the length of a bad access.  Where no length is given, it is one. -/
def readAccess (cs : List Char) : Int × Int :=
  let numbers := (splitLast 'x' cs).2
  (hexInt (numbers.takeWhile (· ≠ ' ')),
    match numbers.dropWhile (· ≠ ' ') with
    | [] => 1
    | length => decimalInt (length.drop " (+".toList.length).dropLast)

/-- The address and the length of a bad access can be read back. -/
theorem readAccess_addressText (start length : Int) :
    readAccess (addressText start length).toList = (start, length) := by
  have hdigits : ∀ c ∈ hexChars .upper 0 start, decide (c ≠ ' ') = true :=
    forall_ne_of_not_mem (blank_not_mem_hexChars .upper 0 start)
  by_cases hone : length = 1
  · have htext : (addressText start length).toList =
        "Address out of bounds: 0".toList ++ 'x' :: hexChars .upper 0 start := by
      simp [addressText, hone]
    rw [htext, readAccess, splitLast_append _ (x_not_mem_hexChars 0 start)]
    have htake : (hexChars .upper 0 start).takeWhile (· ≠ ' ') = hexChars .upper 0 start :=
      List.takeWhile_eq_self_iff.mpr hdigits
    have hdrop : (hexChars .upper 0 start).dropWhile (· ≠ ' ') = [] :=
      List.dropWhile_eq_nil_iff.mpr hdigits
    simp only [htake, hdrop, hexInt_hexChars, hone]
  · have htext : (addressText start length).toList =
        "Address range out of bounds: 0".toList ++
          'x' :: (hexChars .upper 0 start ++ " (+".toList ++ decimalChars length ++ [')']) := by
      simp [addressText, hone]
    have hx : 'x' ∉ hexChars .upper 0 start ++ " (+".toList ++ decimalChars length ++ [')'] := by
      have hdecimal : 'x' ∉ decimalChars length := not_mem_decimalChars (by decide) (by decide) _
      simp [x_not_mem_hexChars, hdecimal]
    rw [htext, readAccess, splitLast_append _ hx]
    simp only [List.append_assoc, List.takeWhile_append_of_pos hdigits,
      List.dropWhile_append_of_pos hdigits]
    simp [hexInt_hexChars, decimalInt_decimalChars]

theorem addressText_eq_iff {start start' length length' : Int} :
    addressText start length = addressText start' length' ↔
      start = start' ∧ length = length' := by
  constructor
  · intro h
    have hread := congrArg (fun line => readAccess line.toList) h
    simpa only [readAccess_addressText, Prod.mk.injEq] using hread
  · rintro ⟨rfl, rfl⟩
    rfl

/-! ## The line that is printed -/

/-- Reads the line that reports a failure of the running program. -/
def readReport (line : String) : Located :=
  readLocated line.toList.dropLast

theorem readReport_located {d : Diagnostic} {text : String} {pc opcode : Int}
    (h : d.text = located text pc opcode) :
    readReport (Notice.emulationError d).text = ⟨"Emulation error: " ++ text, pc, opcode⟩ := by
  have hline : (Notice.emulationError d).text =
      located ("Emulation error: " ++ text) pc opcode ++ "\n" := by
    have htext : (Notice.emulationError d).text = "Emulation error: " ++ d.text ++ "\n" := rfl
    simp only [htext, h, located, String.append_assoc]
  have hbreak : "\n".toList = ['\n'] := rfl
  rw [readReport, hline, String.toList_append, hbreak, List.dropLast_concat, readLocated_located]

/-- The operation that the report of an unsupported one names. -/
def Located.mnemonic (report : Located) : String :=
  String.ofList (report.text.toList.drop "Emulation error: Unsupported opcode ".toList.length)

/-- **Diagnostics tell what has failed.**  Bad accesses with the same text have the same address and
the same length.  Located diagnostics with the same text have the same text in front, whatever it
says, and the same place.  So the place can be read from the line that is printed, and the operation
if it is an unsupported one. -/
theorem texts_tell_failures :
    (∀ start length start' length' : Int,
      (Diagnostic.address start length).text = (Diagnostic.address start' length').text ↔
        start = start' ∧ length = length') ∧
    (∀ (text text' : String) (pc opcode pc' opcode' : Int),
      (execution text pc opcode).text = (execution text' pc' opcode').text ↔
        text = text' ∧ pc = pc' ∧ opcode = opcode') ∧
    (∀ (d : Diagnostic) (pc opcode : Int), d.place? = some (pc, opcode) →
      (readReport (Notice.emulationError d).text).pc = pc ∧
        (readReport (Notice.emulationError d).text).opcode = opcode) ∧
    (∀ (mnemonic : String) (pc opcode : Int),
      (readReport (Notice.emulationError (unsupportedOpcode mnemonic pc opcode)).text).mnemonic =
        mnemonic) := by
  refine ⟨fun _ _ _ _ => addressText_eq_iff, fun _ _ _ _ _ _ => located_eq_iff, ?_, ?_⟩
  · intro d pc opcode hplace
    obtain ⟨text, htext⟩ := exists_located hplace
    rw [readReport_located htext]
    exact ⟨rfl, rfl⟩
  · intro mnemonic pc opcode
    have htext : (unsupportedOpcode mnemonic pc opcode).text =
        located ("Unsupported opcode " ++ mnemonic) pc opcode := rfl
    rw [readReport_located htext, Located.mnemonic]
    simp

end Diagnostic

end Chip8
