import Chip8.Logger
import Chip8.Machine.Trace
import Chip8.Proofs.Decoding
import Chip8.Proofs.Hexadecimal

/-!
# Lines of a trace

Three kinds of lines stand in a trace: an announcement with the address, the word and the text of an
instruction, a remark on what an instruction has done, and the registers.  They cannot be taken for
each other: only an announcement has a colon, and of the others only the registers begin with a `V`.
The address ends at the colon and the word has four digits, so both can be read back
(`Trace.readLine_announcement`).

No line has a break in it, so a log can be cut into its lines again (`LogEntry.lines_join`).
-/

namespace Chip8

open Numeral

namespace Trace

/-! ## Plain text -/

/-- Text without colons and line breaks. -/
def Plain (cs : List Char) : Prop :=
  ':' ∉ cs ∧ '\n' ∉ cs

instance (cs : List Char) : Decidable (Plain cs) :=
  inferInstanceAs (Decidable (_ ∧ _))

@[simp] theorem plain_nil : Plain [] :=
  ⟨List.not_mem_nil, List.not_mem_nil⟩

@[simp] theorem plain_cons (c : Char) (cs : List Char) :
    Plain (c :: cs) ↔ (c ≠ ':' ∧ c ≠ '\n') ∧ Plain cs := by
  simp only [Plain, List.mem_cons, not_or, ne_eq, eq_comm]
  tauto

@[simp] theorem plain_append (cs ds : List Char) : Plain (cs ++ ds) ↔ Plain cs ∧ Plain ds := by
  simp only [Plain, List.mem_append, not_or]
  tauto

@[simp] theorem plain_hexChars (letters : LetterCase) (width : Nat) (n : Int) :
    Plain (hexChars letters width n) := by
  constructor
  · exact not_mem_hexChars (by decide) (by cases letters <;> decide) n
  · exact not_mem_hexChars (by decide) (by cases letters <;> decide) n

@[simp] theorem plain_decimalChars (n : Int) : Plain (decimalChars n) :=
  ⟨not_mem_decimalChars (by decide) (by decide) n, not_mem_decimalChars (by decide) (by decide) n⟩

theorem plain_intercalate {separator : List Char} {parts : List (List Char)}
    (hseparator : Plain separator) (hparts : ∀ part ∈ parts, Plain part) :
    Plain (separator.intercalate parts) := by
  induction parts with
  | nil => exact plain_nil
  | cons part parts ih =>
    obtain ⟨hfirst, hrest⟩ := List.forall_mem_cons.mp hparts
    cases parts with
    | nil => simpa using hfirst
    | cons next parts =>
      rw [List.intercalate_cons_cons, plain_append, plain_append]
      exact ⟨⟨hfirst, hseparator⟩, ih hrest⟩

theorem plain_text (ins : Instruction) : Plain ins.text.toList := by
  obtain ⟨opcode, mnemonic⟩ := ins
  cases mnemonic with
  | none => simp [Instruction.text]
  | some mnemonic =>
    cases mnemonic <;> simp [Instruction.text, Instruction.registerText]

theorem plain_registers (m : Machine) : Plain m.registers.toList := by
  have hfields : Plain ([' '].intercalate
      ((List.finRange 16).map fun k => (Machine.registerField k (m.v.get k)).toList)) := by
    refine plain_intercalate (by decide) ?_
    simp [Machine.registerField, byteHex]
  simp [Machine.registers, Machine.registerText, Function.comp_def, hfields]

theorem plain_remark {ins : Instruction} {m : Machine} {remark : String}
    (h : ins.remark? m = some remark) : Plain remark.toList := by
  unfold Instruction.remark? at h
  split at h <;> cases h <;> simp

/-! ## Reading a line -/

/-- The line that announces the instruction of a word at an address. -/
def announcement (pc : Int) (word : Nat) : String :=
  hex 3 pc ++ ": " ++ hex 4 word ++ "  " ++ (Instruction.decode word).text

theorem newline_not_mem_announcement (pc : Int) (word : Nat) :
    '\n' ∉ (announcement pc word).toList := by
  simp [announcement, (plain_hexChars _ _ _).2, (plain_text _).2]

/-- What a line says. -/
inductive Reading where
  | announcement (pc : Int) (word : Nat)
  | remark
  | registers
deriving DecidableEq, Repr

/-- Reads a line of a trace. -/
def readLine (line : List Char) : Reading :=
  match line.splitOn ':' with
  | [address, rest] => .announcement (hexValue address) (hexValue (rest.tail.take 4))
  | _ => if line.head? = some 'V' then .registers else .remark

/-- A line with one colon is cut there. -/
theorem splitOn_colon {before behind : List Char} (hbefore : Plain before) (hbehind : Plain behind) :
    (before ++ ':' :: behind).splitOn ':' = [before, behind] := by
  have hjoin : before ++ ':' :: behind = [':'].intercalate [before, behind] := by
    simp [List.intercalate_cons_cons]
  rw [hjoin]
  exact List.splitOn_intercalate ':' (by simp [hbefore.1, hbehind.1]) (by simp)

/-- The only colon of an announcement stands between the address and the word. -/
theorem splitOn_announcement (address word : Nat) :
    (announcement address word).toList.splitOn ':' =
      [hexChars .upper 3 address,
        ' ' :: (hexChars .upper 4 word ++ ' ' :: ' ' :: (Instruction.decode word).text.toList)] := by
  have hline : (announcement address word).toList = hexChars .upper 3 address ++ ':' ::
      ' ' :: (hexChars .upper 4 word ++ ' ' :: ' ' :: (Instruction.decode word).text.toList) := by
    simp [announcement]
  rw [hline]
  exact splitOn_colon (plain_hexChars _ _ _) (by simp [plain_text])

/-- The address and the word that a line announces can be read back. -/
theorem readLine_announcement {pc : Int} {word : Nat} (hpc : 0 ≤ pc) (hword : word < 65536) :
    readLine (announcement pc word).toList = .announcement pc word := by
  obtain ⟨address, rfl⟩ := Int.eq_ofNat_of_zero_le hpc
  have hdigits : (hexChars .upper 4 word).length = 4 := length_hexChars .upper (by omega) hword
  rw [readLine, splitOn_announcement]
  simp [hexValue_hexChars, List.take_left' hdigits]

/-- A line without a colon is read by its first character. -/
theorem readLine_of_plain {line : List Char} (h : Plain line) :
    readLine line = if line.head? = some 'V' then .registers else .remark := by
  have hsplit : ([':'].intercalate [line]).splitOn ':' = [line] :=
    List.splitOn_intercalate ':' (by simpa using h.1) (by simp)
  rw [List.intercalate_singleton] at hsplit
  rw [readLine, hsplit]

theorem readLine_registers (m : Machine) : readLine m.registers.toList = .registers := by
  have hhead : m.registers.toList.head? = some 'V' := by
    rw [Machine.registers, Machine.registerText, List.finRange_succ]
    simp [Machine.registerField]
  rw [readLine_of_plain (plain_registers m), if_pos hhead]

theorem readLine_remark {ins : Instruction} {m : Machine} {remark : String}
    (h : ins.remark? m = some remark) : readLine remark.toList = .remark := by
  have hhead : remark.toList.head? ≠ some 'V' := by
    unfold Instruction.remark? at h
    split at h <;> cases h <;> simp
  rw [readLine_of_plain (plain_remark h), if_neg hhead]

/-! ## Reading a trace -/

/-- What some lines say. -/
def readLines (lines : List String) : List Reading :=
  lines.map fun line => readLine line.toList

/-- The instructions that are announced, with their addresses. -/
def announced (readings : List Reading) : List (Int × Nat) :=
  readings.filterMap fun
    | .announcement pc word => some (pc, word)
    | .remark | .registers => none

/-- The number of register lines. -/
def registerLines (readings : List Reading) : Nat :=
  readings.count .registers

theorem readLines_append (lines more : List String) :
    readLines (lines ++ more) = readLines lines ++ readLines more :=
  List.map_append

theorem readLines_announcement {pc : Int} {word : Nat} (hpc : 0 ≤ pc) (hword : word < 65536) :
    readLines [announcement pc word] = [.announcement pc word] := by
  rw [readLines, List.map_singleton, readLine_announcement hpc hword]

theorem announced_append (readings more : List Reading) :
    announced (readings ++ more) = announced readings ++ announced more :=
  List.filterMap_append

theorem registerLines_append (readings more : List Reading) :
    registerLines (readings ++ more) = registerLines readings + registerLines more :=
  List.count_append

end Trace

namespace LogEntry

/-- The lines of a log. -/
def lines (log : String) : List (List Char) :=
  (log.toList.splitOn '\n').dropLast

variable {sink : LogSink} {messages : List String}

/-- Lines that all end with a break are separated by breaks, with nothing behind the last one. -/
theorem flatMap_concat_eq (c : Char) (parts : List (List Char)) :
    parts.flatMap (· ++ [c]) = [c].intercalate (parts ++ [[]]) := by
  induction parts with
  | nil => simp
  | cons part parts ih =>
    rw [List.flatMap_cons, ih, List.cons_append, List.intercalate_cons_of_ne_nil (by simp)]

/-- A log can be cut into its messages again. -/
theorem lines_join (h : ∀ message ∈ messages, '\n' ∉ message.toList) :
    lines (join (messages.map (LogEntry.mk sink))) = messages.map String.toList := by
  have hlog : (join (messages.map (LogEntry.mk sink))).toList =
      ['\n'].intercalate (messages.map String.toList ++ [[]]) := by
    rw [← flatMap_concat_eq, join, String.toList_join, List.map_map, List.flatMap_map,
      List.flatMap_map]
    simp [text]
  have hsplit : (join (messages.map (LogEntry.mk sink))).toList.splitOn '\n' =
      messages.map String.toList ++ [[]] := by
    rw [hlog]
    apply List.splitOn_intercalate
    · rw [List.forall_mem_append, List.forall_mem_map]
      simpa using h
    · simp
  rw [lines, hsplit, List.dropLast_concat]

end LogEntry

end Chip8
