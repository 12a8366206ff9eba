import Chip8.Proofs.Events
import Chip8.Proofs.HexDump

/-!
# The error stream

A running window writes to the error stream line by line: log entries, and the report of the failure
that ends the program.  A log entry would be taken for such a report if one of its lines began like
it.  None does: the lines of a trace and of a dump begin with an address and a colon or have no colon
at all, what is written about keys and about tracing begins with other words, and the report of a
failure is a single line.

So the reports of failures can be found in the text again, each as often as it was made
(`Notice.errorLines_join`), whatever the window does (`Window.clear_handle`).
-/

namespace Chip8

open Numeral Trace

/-! ## Reports in a text -/

namespace Notice

/-- The failure of a running program that a notice reports, if it does. -/
def error? : Notice → Option Diagnostic
  | emulationError d => some d
  | logged _ | badArguments _ | startFailed _ => none

/-- The failures of running programs that notices report. -/
def errors (notices : List Notice) : List Diagnostic :=
  notices.filterMap error?

theorem errors_append (first rest : List Notice) :
    errors (first ++ rest) = errors first ++ errors rest :=
  List.filterMap_append

theorem errors_logged (entries : List LogEntry) : errors (Window.logged entries) = [] := by
  induction entries with
  | nil => rfl
  | cons entry entries ih => exact ih

theorem join_append (first rest : List Notice) :
    join (first ++ rest) = join first ++ join rest := by
  simp [join]

theorem join_logged (entries : List LogEntry) :
    join (Window.logged entries) = LogEntry.join entries :=
  congrArg String.join List.map_map

/-- The words with which the report of a failure of a running program begins. -/
def opening : List Char :=
  "Emulation error:".toList

/-- The line that reports a failure of a running program. -/
def errorLine (d : Diagnostic) : List Char :=
  opening ++ ' ' :: d.text.toList

/-- The lines of a text that report failures of running programs. -/
def errorLines (text : String) : List (List Char) :=
  (text.toList.splitOn '\n').filter (opening.isPrefixOf ·)

variable {n : Notice} {notices : List Notice} {line : String} {cs : List Char}

theorem errorLines_append (first rest : String) :
    errorLines (first ++ "\n" ++ rest) = errorLines first ++ errorLines rest := by
  have hbreak : (first ++ "\n" ++ rest).toList = first.toList ++ '\n' :: rest.toList := by simp
  rw [errorLines, hbreak, List.splitOn_append_cons_self, List.filter_append]
  rfl

/-- A line break at the end adds no line that reports anything. -/
theorem errorLines_concat (line : String) : errorLines (line ++ "\n") = errorLines line := by
  have hcut := errorLines_append line ""
  have hempty : errorLines "" = [] := by decide
  rwa [String.append_empty, hempty, List.append_nil] at hcut

/-- A text without a line break is one line. -/
theorem errorLines_of_newline_not_mem (h : '\n' ∉ line.toList) :
    errorLines line = if opening <+: line.toList then [line.toList] else [] := by
  have hsplit : (['\n'].intercalate [line.toList]).splitOn '\n' = [line.toList] :=
    List.splitOn_intercalate '\n' (by simpa using h) (by simp)
  rw [List.intercalate_singleton] at hsplit
  rw [errorLines, hsplit, List.filter_singleton]
  simp

/-- Each notice ends its line. -/
theorem exists_line (n : Notice) : ∃ line, n.text = line ++ "\n" := by
  cases n with
  | logged entry => exact ⟨entry.message, rfl⟩
  | badArguments d | startFailed d | emulationError d => exact ⟨_, rfl⟩

/-- A notice that reads as a report of the failure that it reports, and as no other. -/
def Clear (n : Notice) : Prop :=
  errorLines n.text = n.error?.toList.map errorLine

/-- The reports in the text of notices are those that have been made. -/
theorem errorLines_join (h : ∀ n ∈ notices, n.Clear) :
    errorLines (join notices) = (errors notices).map errorLine := by
  induction notices with
  | nil => decide
  | cons n notices ih =>
    obtain ⟨hfirst, hrest⟩ := List.forall_mem_cons.mp h
    obtain ⟨line, hline⟩ := n.exists_line
    have hlast : errorLines n.text = errorLines line := by
      rw [hline, errorLines_concat]
    have herrors : errors (n :: notices) = n.error?.toList ++ errors notices := by
      rw [errors, List.filterMap_cons]
      cases n.error? <;> rfl
    have hjoin : join (n :: notices) = line ++ "\n" ++ join notices := by
      simp [join, hline]
    rw [hjoin, errorLines_append, ← hlast, hfirst, ih hrest, herrors, List.map_append]

theorem clear_logged {entry : LogEntry} (h : errorLines entry.message = []) :
    (logged entry).Clear :=
  (errorLines_concat entry.message).trans h

/-- A failure is reported on a line of its own. -/
theorem clear_emulationError {d : Diagnostic} (h : '\n' ∉ d.text.toList) :
    (emulationError d).Clear := by
  have hline : ("Emulation error: " ++ d.text).toList = errorLine d := by
    have hopening : "Emulation error: ".toList = opening ++ [' '] := by decide
    rw [String.toList_append, hopening, List.append_assoc]
    rfl
  have hbreak : '\n' ∉ ("Emulation error: " ++ d.text).toList := by
    have hopening : '\n' ∉ opening := by decide
    simpa [hline, errorLine, hopening] using h
  have hopening : opening <+: ("Emulation error: " ++ d.text).toList := by
    rw [hline]
    exact List.prefix_append opening _
  show errorLines ("Emulation error: " ++ d.text ++ "\n") = [errorLine d]
  rw [errorLines_concat, errorLines_of_newline_not_mem hbreak, if_pos hopening, hline]

/-! ## Lines that report nothing -/

theorem not_opening_of_plain (h : Plain cs) : ¬ opening <+: cs := by
  intro hopening
  exact h.1 (hopening.subset (by decide))

/-- An address in front of a colon is no word. -/
theorem not_opening_of_address (address : Int) (rest : List Char) :
    ¬ opening <+: hexChars .upper 3 address ++ ':' :: rest := by
  rintro ⟨more, hmore⟩
  have hword := congrArg (List.takeWhile (· ≠ ':')) hmore
  have haddress : (hexChars .upper 3 address ++ ':' :: rest).takeWhile (· ≠ ':') =
      hexChars .upper 3 address := by
    rw [List.takeWhile_append_of_pos (forall_ne_of_not_mem (plain_hexChars _ _ _).1)]
    simp
  have hletter : 'm' ∉ hexChars .upper 3 address := not_mem_hexChars (by decide) (by decide) address
  have hopening : opening ++ more = 'E' :: 'm' :: (opening.drop 2 ++ more) := rfl
  rw [haddress, hopening] at hword
  refine hletter (hword ▸ ?_)
  simp

theorem not_opening_of_head? (h : cs.head? ≠ some 'E') : ¬ opening <+: cs := by
  rintro ⟨more, rfl⟩
  exact h rfl

theorem errorLines_of_plain (h : Plain line.toList) : errorLines line = [] := by
  rw [errorLines_of_newline_not_mem h.2, if_neg (not_opening_of_plain h)]

theorem errorLines_traceLine (ins : Instruction) (pc : Int) :
    errorLines (ins.traceLine pc) = [] := by
  have hline : (ins.traceLine pc).toList = hexChars .upper 3 pc ++ ':' ::
      ' ' :: (hexChars .upper 4 ins.opcode.toNat ++ ' ' :: ' ' :: ins.text.toList) := by
    simp [Instruction.traceLine]
  have hbreak : '\n' ∉ (ins.traceLine pc).toList := by
    simp [hline, (plain_hexChars _ _ _).2, (plain_text ins).2]
  rw [errorLines_of_newline_not_mem hbreak, hline, if_neg (not_opening_of_address _ _)]

theorem errorLines_switched (on : Bool) :
    errorLines ("logsOn: " ++ (LogValue.flag on).shown) = [] := by
  have hbreak : '\n' ∉ ("logsOn: " ++ (LogValue.flag on).shown).toList := by
    cases on <;> decide
  have hhead : ("logsOn: " ++ (LogValue.flag on).shown).toList.head? ≠ some 'E' := by
    cases on <;> decide
  rw [errorLines_of_newline_not_mem hbreak, if_neg (not_opening_of_head? hhead)]

theorem errorLines_keyDown (key : Nat) : errorLines ("Key down: " ++ markedHex 1 key) = [] := by
  have hline : ("Key down: " ++ markedHex 1 key).toList =
      "Key down: ".toList ++ '0' :: 'x' :: hexChars .lower 1 key := by
    rw [String.toList_append, toList_markedHex]
  have hbreak : '\n' ∉ ("Key down: " ++ markedHex 1 key).toList := by
    simp [(plain_hexChars _ _ _).2]
  rw [errorLines_of_newline_not_mem hbreak, hline, if_neg (not_opening_of_head? (by simp))]

theorem errorLines_dumpText {width : Nat} (hwidth : 0 < width) (address : Int)
    (bytes : List UInt8) : errorLines (Memory.dumpText width address bytes) = [] := by
  by_cases hbytes : bytes = []
  · rw [hbytes, Memory.dumpText_nil]
    decide
  · rw [errorLines, Memory.splitOn_dumpText hwidth hbytes, Memory.dumpLines_eq_map hwidth,
      List.map_map, List.filter_eq_nil_iff, List.forall_mem_map]
    intro k _
    rw [Function.comp_apply, Memory.toList_dumpLine, List.isPrefixOf_iff_prefix]
    exact not_opening_of_address _ _

/-- Entries that report nothing leave a text without reports. -/
theorem clear_of_mem_logged {entries : List LogEntry}
    (h : ∀ entry ∈ entries, errorLines entry.message = []) :
    ∀ n ∈ Window.logged entries, n.Clear := by
  intro n hn
  obtain ⟨entry, hentry, rfl⟩ := List.mem_map.mp hn
  exact clear_logged (h entry hentry)

end Notice

/-! ## What is written -/

theorem Diagnostic.newline_not_mem_located {text : String} (h : '\n' ∉ text.toList)
    (pc opcode : Int) : '\n' ∉ (located text pc opcode).toList := by
  simp [located, h, (plain_hexChars _ _ _).2]

theorem Diagnostic.newline_not_mem_addressText (address length : Int) :
    '\n' ∉ (addressText address length).toList := by
  rw [addressText]
  split <;> simp [(plain_hexChars _ _ _).2, (plain_decimalChars _).2]

/-- A fault is reported on one line. -/
theorem Fault.newline_not_mem_text {fault : Fault} {d : Diagnostic}
    (h : fault.diagnostic? = some d) : '\n' ∉ d.text.toList := by
  cases fault with
  | memory e =>
    cases e with
    | outOfBounds access =>
      cases h
      exact Diagnostic.newline_not_mem_addressText _ _
    | romTooLarge length room =>
      cases h
      simp [MemoryError.tooLarge, Diagnostic.text, (plain_decimalChars _).2]
    | negativeSize | notAByte | tooManyDigits | zeroWidth => cases h
  | unknownOpcode pc word =>
    cases h
    exact Diagnostic.newline_not_mem_located (by decide) _ _
  | unsupportedOpcode pc word mnemonic =>
    cases h
    have hname : '\n' ∉ mnemonic.name.toList := by
      cases mnemonic <;> decide
    exact Diagnostic.newline_not_mem_located (by simp [hname]) _ _
  | stackUnderflow pc word | stackOverflow pc word =>
    cases h
    exact Diagnostic.newline_not_mem_located (by decide) _ _
  | noSuchKey pc word number =>
    cases h
    refine Diagnostic.newline_not_mem_located ?_ _ _
    simp [(plain_decimalChars _).2]
  | keypad | position | returnAddress => cases h

namespace Logger

variable {l : Logger} {entry : LogEntry}

theorem message_of_mem_record {level : LogLevel} {message : String}
    (h : entry ∈ l.record level message) : entry.message = message := by
  unfold record at h
  split at h
  · rcases List.mem_append.mp h with hown | hhost
    · exact congrArg LogEntry.message (List.eq_of_mem_replicate hown)
    · split at hhost
      · exact congrArg LogEntry.message (List.mem_singleton.mp hhost)
      · cases hhost
  · cases h

theorem message_of_mem_log {message : String} (h : entry ∈ l.log message) :
    entry.message = message := by
  unfold log at h
  split at h
  · exact message_of_mem_record h
  · cases h

theorem message_mem_of_mem_logAll {lines : List String} (h : entry ∈ l.logAll fun _ => lines) :
    entry.message ∈ lines := by
  unfold logAll at h
  split at h
  · obtain ⟨line, hline, hentry⟩ := List.mem_flatMap.mp h
    rwa [message_of_mem_record hentry]
  · cases h

end Logger

namespace Machine

open Notice

theorem errorLines_registers (m : Machine) : errorLines m.registers = [] :=
  errorLines_of_plain (plain_registers m)

/-- No line of a trace reads as a report. -/
theorem errorLines_of_mem_traceStep {m : Machine} {line : String} (h : line ∈ m.traceStep) :
    errorLines line = [] := by
  unfold traceStep at h
  split at h
  · cases h
  next ins hfetch =>
    rcases List.mem_cons.mp h with rfl | h
    · exact errorLines_traceLine ins m.pc
    split at h
    · cases h
    next next hexec =>
      rcases List.mem_append.mp h with hremark | hregisters
      · exact errorLines_of_plain (plain_remark (Option.mem_toList.mp hremark))
      · obtain rfl := List.mem_singleton.mp hregisters
        exact errorLines_registers next

end Machine

namespace Window

open Notice

variable {w : Window}

theorem errorLines_haltDump {m : Machine} {dump : String} (h : haltDump m = .ok dump) :
    errorLines dump = [] := by
  obtain ⟨-, -, rfl⟩ := Memory.dump_eq_ok_iff.mp h
  exact errorLines_dumpText (by decide) _ _

theorem clear_stepTrace (w : Window) : ∀ n ∈ w.stepTrace, n.Clear := by
  apply clear_of_mem_logged
  intro entry hentry
  exact Machine.errorLines_of_mem_traceStep (Logger.message_mem_of_mem_logAll hentry)

theorem clear_cpuTick (h : w.StandardMemory) : ∀ n ∈ w.cpuTick.notices, n.Clear := by
  cases hresult : w.session.machine.step.result with
  | ok ins =>
    rw [cpuTick_of_ok hresult]
    exact w.clear_stepTrace
  | error fault =>
    obtain ⟨d, dump, hd, hdump, htick⟩ := cpuTick_of_error h hresult
    rw [htick, List.forall_mem_append, List.forall_mem_cons]
    refine ⟨w.clear_stepTrace, clear_emulationError (Fault.newline_not_mem_text hd), ?_⟩
    apply clear_of_mem_logged
    intro entry hentry
    have hmessage := Logger.message_mem_of_mem_logAll hentry
    rcases List.mem_cons.mp hmessage with hregisters | hshown
    · rw [hregisters]
      exact Machine.errorLines_registers _
    · rw [List.mem_singleton.mp hshown]
      exact errorLines_haltDump hdump

theorem clear_keyPress (w : Window) (symbol : Int) : ∀ n ∈ (w.keyPress symbol).notices, n.Clear := by
  unfold keyPress
  split
  · simp
  · split
    · apply clear_of_mem_logged
      intro entry hentry
      rw [Logger.message_of_mem_record hentry]
      exact errorLines_switched _
    · split
      · simp
      next key hkey =>
        apply clear_of_mem_logged
        intro entry hentry
        rw [Logger.message_of_mem_log hentry]
        exact errorLines_keyDown key.val

/-- Whatever happens to a window, what it writes is read as it is meant. -/
theorem clear_handle (h : w.StandardMemory) (e : WindowEvent) :
    ∀ n ∈ (w.handle e).notices, n.Clear := by
  have hnone : ∀ n ∈ ([] : List Notice), n.Clear := by simp
  cases e with
  | cpuTick =>
    rw [handle]
    split
    · exact clear_cpuTick h
    · exact hnone
  | keyPress symbol => exact w.clear_keyPress symbol
  | timerTick | keyRelease symbol | draw =>
    simp only [handle, keyRelease, draw]
    split <;> exact hnone
  | close | deactivate => exact hnone

end Window

end Chip8
