import Chip8.Proofs.Halting
import Chip8.Proofs.OptionGroups

/-!
# Failures are reported

Most failures of a run are reported on the error stream: what is wrong with the command line, a
program that cannot be loaded, a step that fails.  The application then returns 1.  Four failures
are not reported, and escape instead (`Unreported`): an amount that two dashes have left without a
value, a name of the program file that holds the character zero or that cannot be encoded, and a rate
that is too large for a floating point number.

The main result says that these are all (`Application.reports_failures`).
-/

namespace Chip8

/-! ## Lines of the error stream -/

/-- Whether a text has a line that begins with another text. -/
def HasLine (start text : String) : Prop :=
  ∃ before rest, text = before ++ start ++ rest ∧ (before = "" ∨ ∃ lines, before = lines ++ "\n")

/-- The beginnings of the lines that report failures. -/
def openings : List String :=
  ["Problem parsing arguments:", "Error:", "Emulation error:"]

/-- Whether a text has a line that reports a failure. -/
def ReportsFailure (text : String) : Prop :=
  ∃ start ∈ openings, HasLine start text

namespace Notice

variable {n : Notice} {notices : List Notice}

theorem join_lines (notices : List Notice) :
    join notices = "" ∨ ∃ lines, join notices = lines ++ "\n" := by
  rcases List.eq_nil_or_concat notices with rfl | ⟨before, last, rfl⟩
  · exact .inl rfl
  · obtain ⟨line, hline⟩ := last.exists_line
    refine .inr ⟨join before ++ line, ?_⟩
    simp [join, hline, String.append_assoc]

/-- The text of a report begins in one of the ways. -/
theorem exists_opening (h : n.isLogged = false) :
    ∃ start ∈ openings, ∃ rest, n.text = start ++ rest := by
  have hblank : ∀ start text : String, start ++ ": " ++ text ++ "\n" =
      (start ++ ":") ++ (" " ++ text ++ "\n") := by
    intro start text
    apply String.toList_injective
    simp
  cases n with
  | logged entry => cases h
  | badArguments d => exact ⟨_, by simp [openings], _, hblank "Problem parsing arguments" _⟩
  | startFailed d => exact ⟨_, by simp [openings], _, hblank "Error" _⟩
  | emulationError d => exact ⟨_, by simp [openings], _, hblank "Emulation error" _⟩

/-- A report among the notices stands on the error stream as a line. -/
theorem reportsFailure_of_mem (hmem : n ∈ notices) (h : n.isLogged = false) :
    ReportsFailure (join notices) := by
  obtain ⟨before, after, rfl⟩ := List.append_of_mem hmem
  obtain ⟨start, hstart, rest, htext⟩ := exists_opening h
  refine ⟨start, hstart, join before, rest ++ join after, ?_, join_lines before⟩
  simp [join, htext, String.append_assoc]

end Notice

/-! ## Rates -/

theorem Window.rateLimit_pos : 0 < rateLimit := by
  decide +kernel

namespace CommandLine

/-- A rate of the instructions, as the words `--cpu-hz` and a number. -/
def rateGroup (n : WrittenInt) : OptionGroup :=
  .amount .cpuHz
    { letters := ['c', 'p', 'u', '-', 'h', 'z']
      ne_nil := List.cons_ne_nil _ _
      begins := ⟨"--cpu-hz",
        List.mem_cons_of_mem _ (List.mem_cons_of_mem _ List.mem_cons_self), [], rfl⟩ }
    n false

/-- With a positive rate, all amounts are positive. -/
theorem lastValue_rateGroup_pos {n : WrittenInt} (h : 0 < n.value) (a : Amount) :
    0 < lastValue [rateGroup n] a := by
  have hstandard : ∀ b : Amount, (0 : Int) < b.standard := by
    intro b
    cases b <;> decide
  cases a with
  | cpuHz => exact h
  | scale | timerHz => exact hstandard _

/-- The settings that a command line asks for with a rate of the instructions. -/
theorem exists_settings_of_rate {n : Nat} (hwritable : Numeral.Writable n) (hpos : 0 < n) :
    ∃ settings, Request.ofArguments ["a.ch8", "--cpu-hz", Numeral.decimal n] =
        .ok (.run settings) ∧ settings.rom = "a.ch8" ∧ settings.cpuHz = n := by
  have hwritten : Writes "a.ch8" [rateGroup ⟨n, hwritable⟩]
      (write [] ++ "a.ch8" :: write [rateGroup ⟨n, hwritable⟩]) := .between rfl (by decide)
  have hrequest : Request.ofArguments ["a.ch8", "--cpu-hz", Numeral.decimal n] =
      (givenBy "a.ch8" [rateGroup ⟨n, hwritable⟩]).settings.map .run :=
    ofArguments_of_writes hwritten
  have hvalue := lastValue_rateGroup_pos (n := ⟨n, hwritable⟩) (Int.natCast_pos.mpr hpos)
  rw [hrequest, settings_givenBy, ofValues_of_pos _ _ hvalue]
  exact ⟨_, rfl, rfl, rfl⟩

end CommandLine

/-! ## Launches -/

/-- The failures of a run that nothing reports. -/
inductive Unreported (words : List String) (read : String → Except ReadError (List UInt8)) : Prop
  /-- A word has attached two dashes to an amount, and so left it without a value. -/
  | noValue (a : Amount) (option : String) (dashes : option ++ "=" ++ "--" ∈ words)
      (refused : CommandLine.Request.ofArguments words = .error (.badAmount (.missing a)))
  /-- The name of the program file holds the character zero. -/
  | zeroInName (settings : Settings)
      (request : CommandLine.Request.ofArguments words = .ok (.run settings))
      (zero : read settings.rom = .error .zeroInName)
  /-- The name of the program file cannot be encoded. -/
  | notEncodable (settings : Settings) (reason : String)
      (request : CommandLine.Request.ofArguments words = .ok (.run settings))
      (contents : read settings.rom = .error (.notEncodable reason))
  /-- The program is loaded, but a rate is beyond floating point numbers. -/
  | rate (settings : Settings) (rom : List UInt8)
      (request : CommandLine.Request.ofArguments words = .ok (.run settings))
      (contents : read settings.rom = .ok rom)
      (room : Memory.programStart + rom.length ≤ Memory.standardSize)
      (large : Window.rateLimit ≤ settings.cpuHz ∨ Window.rateLimit ≤ settings.timerHz)

/-- A disk takes each name without the character zero. -/
theorem Disk.read_eq_zeroInName_iff (d : Disk) (name : String) :
    d.read name = .error .zeroInName ↔ Char.ofNat 0 ∈ name.toList := by
  unfold Disk.read
  split
  next hzero => simpa using hzero
  next hzero =>
    have hnot : Char.ofNat 0 ∉ name.toList := by simpa using hzero
    simp only [hnot, iff_false]
    split <;> simp

/-- A disk has an encoding for each name. -/
theorem Disk.read_ne_notEncodable (d : Disk) (name reason : String) :
    d.read name ≠ .error (.notEncodable reason) := by
  unfold Disk.read
  split
  · simp
  · split <;> simp

/-- On a disk, a command line without attached dashes is reported on if it gives a name without the
character zero and rates that are not too large. -/
theorem not_unreported {words : List String} (disk : Disk)
    (hdashes : ∀ option, option ++ "=" ++ "--" ∉ words)
    (hsettings : ∀ settings, CommandLine.Request.ofArguments words = .ok (.run settings) →
      Char.ofNat 0 ∉ settings.rom.toList ∧ settings.cpuHz < Window.rateLimit ∧
        settings.timerHz < Window.rateLimit) : ¬ Unreported words disk.read := by
  rintro (⟨a, option, hword, -⟩ | ⟨settings, hrun, hzero⟩ | ⟨settings, reason, -, hreason⟩ |
    ⟨settings, rom, hrun, -, -, hlarge⟩)
  · exact hdashes option hword
  · exact (hsettings settings hrun).1 ((disk.read_eq_zeroInName_iff _).mp hzero)
  · exact disk.read_ne_notEncodable _ reason hreason
  · obtain ⟨-, hcpu, htimer⟩ := hsettings settings hrun
    rcases hlarge with hlarge | hlarge
    · exact absurd hcpu (Nat.not_lt.mpr hlarge)
    · exact absurd htimer (Nat.not_lt.mpr hlarge)

namespace Launch

variable {keyboard : Keyboard} {settings : Settings} {contents : Except ReadError (List UInt8)}
  {words : List String} {read : String → Except ReadError (List UInt8)}

/-- A run fails to launch without a report if the name of its program holds the character zero or
cannot be encoded, or if the program is loaded and a rate is too large. -/
theorem run_failed_iff :
    (∃ cause, (run keyboard settings contents).result = .failed cause) ↔
      (contents = .error .zeroInName ∨ ∃ reason, contents = .error (.notEncodable reason)) ∨
        ((∃ memory, Rom.load settings.rom contents = .ok memory) ∧
          (Window.rateLimit ≤ settings.cpuHz ∨ Window.rateLimit ≤ settings.timerHz)) := by
  rw [result_run]
  cases hload : Rom.load settings.rom contents with
  | error e =>
    rw [← Rom.diagnostic?_of_load hload]
    cases hd : e.diagnostic? <;> simp [hd]
  | ok memory =>
    have hname : ¬ (contents = .error .zeroInName ∨
        ∃ reason, contents = .error (.notEncodable reason)) := by
      rintro (rfl | ⟨reason, rfl⟩)
      · cases hload
      · cases hload
    have hfails : (∃ e, Window.start keyboard ⟨machine memory, logger settings⟩ settings =
        .error e) ↔ _ := Window.start_fails_iff
    cases hstart : Window.start keyboard ⟨machine memory, logger settings⟩ settings with
    | error e =>
      simp only [hstart, Except.error.injEq, exists_eq', true_iff] at hfails
      simp [hstart, hname, hfails]
    | ok w =>
      simp only [hstart, reduceCtorEq, exists_false, false_iff] at hfails
      simp [hstart, hname, hfails]

/-- Without a request for a run, nothing is unreported but an amount without a value. -/
theorem unreported_iff_of_not_run
    (h : ∀ settings, CommandLine.Request.ofArguments words ≠ .ok (.run settings)) :
    Unreported words read ↔ ∃ a option, option ++ "=" ++ "--" ∈ words ∧
      CommandLine.Request.ofArguments words = .error (.badAmount (.missing a)) := by
  constructor
  · rintro (⟨a, option, hdashes, hrefused⟩ | ⟨settings, hrun, -⟩ | ⟨settings, reason, hrun, -⟩ |
      ⟨settings, rom, hrun, -⟩)
    · exact ⟨a, option, hdashes, hrefused⟩
    · exact absurd hrun (h settings)
    · exact absurd hrun (h settings)
    · exact absurd hrun (h settings)
  · rintro ⟨a, option, hdashes, hrefused⟩
    exact .noValue a option hdashes hrefused

/-- What is unreported of a run that is asked for. -/
theorem unreported_iff_of_run
    (h : CommandLine.Request.ofArguments words = .ok (.run settings)) :
    Unreported words read ↔
      (read settings.rom = .error .zeroInName ∨
        ∃ reason, read settings.rom = .error (.notEncodable reason)) ∨
        ((∃ memory, Rom.load settings.rom (read settings.rom) = .ok memory) ∧
          (Window.rateLimit ≤ settings.cpuHz ∨ Window.rateLimit ≤ settings.timerHz)) := by
  constructor
  · rintro (⟨a, option, -, hrefused⟩ | ⟨asked, hrun, hzero⟩ | ⟨asked, reason, hrun, hreason⟩ |
      ⟨asked, rom, hrun, hcontents, hroom, hlarge⟩)
    · rw [h] at hrefused
      cases hrefused
    · rw [h] at hrun
      cases hrun
      exact .inl (.inl hzero)
    · rw [h] at hrun
      cases hrun
      exact .inl (.inr ⟨reason, hreason⟩)
    · rw [h] at hrun
      cases hrun
      exact .inr ⟨⟨_, Rom.load_eq_ok_iff.mpr ⟨rom, hcontents, hroom, rfl⟩⟩, hlarge⟩
  · rintro ((hzero | ⟨reason, hreason⟩) | ⟨⟨memory, hload⟩, hlarge⟩)
    · exact .zeroInName settings h hzero
    · exact .notEncodable settings reason h hreason
    · obtain ⟨rom, hcontents, hroom, -⟩ := Rom.load_eq_ok_iff.mp hload
      exact .rate settings rom h hcontents hroom hlarge

/-- The launches that fail without a report. -/
theorem failed_iff (keyboard : Keyboard) : (∃ cause, (ofArguments keyboard words read).result = .failed cause) ↔
    Unreported words read := by
  cases hrequest : CommandLine.Request.ofArguments words with
  | error e =>
    rw [unreported_iff_of_not_run (by simp [hrequest])]
    simp only [ofArguments, hrequest]
    constructor
    · rintro ⟨cause, hcause⟩
      cases hd : e.diagnostic? with
      | some d => simp [hd] at hcause
      | none =>
        obtain ⟨a, rfl, word, hword, option, rfl⟩ :=
          CommandLine.exists_dashes_of_undiagnosed hrequest hd
        exact ⟨a, option, hword, rfl⟩
    · rintro ⟨a, option, -, hrefused⟩
      cases hrefused
      exact ⟨_, rfl⟩
  | ok request =>
    cases request with
    | help =>
      rw [unreported_iff_of_not_run (by simp [hrequest])]
      simp [ofArguments, hrequest]
    | run settings =>
      rw [unreported_iff_of_run hrequest]
      simp only [ofArguments, hrequest, run_failed_iff]

/-- A run that is refused reports why its program cannot be loaded. -/
theorem startFailed_of_refused (h : (run keyboard settings contents).result = .refused) :
    ∃ d, .startFailed d ∈ (run keyboard settings contents).notices := by
  rw [result_run] at h
  cases hload : Rom.load settings.rom contents with
  | ok memory =>
    simp only [hload] at h
    split at h <;> cases h
  | error e =>
    cases hd : e.diagnostic? with
    | none => simp [hload, hd] at h
    | some d => exact ⟨d, by simp [notices_run, refusal, hload, hd]⟩

/-- A launch fails, shows the help text, is refused with a report, or opens a window. -/
theorem ofArguments_cases (keyboard : Keyboard) (words : List String)
    (read : String → Except ReadError (List UInt8)) :
    (∃ cause, (ofArguments keyboard words read).result = .failed cause) ∨
      (ofArguments keyboard words read).result = .help CommandLine.helpText ∨
      ((ofArguments keyboard words read).result = .refused ∧
        ∃ n ∈ (ofArguments keyboard words read).notices, n.isLogged = false) ∨
      ∃ settings contents w, (run keyboard settings contents).result = .opened w ∧
        (ofArguments keyboard words read).result = .opened w := by
  unfold ofArguments
  cases hrequest : CommandLine.Request.ofArguments words with
  | error e =>
    cases hd : e.diagnostic? with
    | none => exact .inl ⟨.request e, by simp [hd]⟩
    | some d => exact .inr (.inr (.inl ⟨by simp [hd], .badArguments d, by simp [hd], rfl⟩))
  | ok request =>
    cases request with
    | help => exact .inr (.inl rfl)
    | run settings =>
      simp only
      cases hresult : (run keyboard settings (read settings.rom)).result with
      | help text =>
        rw [result_run] at hresult
        split at hresult
        · split at hresult <;> cases hresult
        · split at hresult <;> cases hresult
      | refused =>
        obtain ⟨d, hd⟩ := startFailed_of_refused hresult
        exact .inr (.inr (.inl ⟨rfl, .startFailed d, hd, rfl⟩))
      | opened w => exact .inr (.inr (.inr ⟨settings, _, w, hresult, rfl⟩))
      | failed cause => exact .inl ⟨cause, rfl⟩

end Launch

/-! ## Runs -/

/-- A run of an opened window that returns 1 has reported a failure. -/
theorem Window.exists_report {w : Window} (hstandard : w.StandardMemory) (hfailed : w.failed = false)
    {events : List WindowEvent} (h : (w.after events).failed = true) :
    ∃ n ∈ w.notices events, n.isLogged = false := by
  obtain ⟨before, e, rest, rfl, fault, hfault⟩ : w.Fails events := by
    simpa [hfailed] using (failed_after_iff hstandard).mp h
  obtain ⟨d, hmem⟩ : ∃ d, d ∈ Notice.errors (w.notices (before ++ e :: rest)) := by
    obtain ⟨d, -, -, herrors⟩ := errors_of_fault hstandard hfault
    exact ⟨d, herrors ▸ List.mem_singleton_self d⟩
  obtain ⟨n, hn, herror⟩ := List.mem_filterMap.mp hmem
  refine ⟨n, hn, ?_⟩
  cases n with
  | logged entry => cases herror
  | badArguments d | startFailed d | emulationError d => rfl

namespace Application

/-- **Failures are reported.**  Nothing escapes a run but what nothing reports.  Any other run shows
the help text or returns 0 or 1, and a run that returns 1 has written a line that says why. -/
theorem reports_failures (keyboard : Keyboard) (words : List String)
    (read : String → Except ReadError (List UInt8)) (events : List WindowEvent) :
    ((∃ cause, (run keyboard words read events).ending = .escaped cause) ↔ Unreported words read) ∧
      (¬ Unreported words read → (run keyboard words read events).ending = .help CommandLine.helpText ∨
        (run keyboard words read events).ending = .returned 0 ∨
        (run keyboard words read events).ending = .returned 1) ∧
      ((run keyboard words read events).ending = .returned 1 →
        ReportsFailure (run keyboard words read events).errorText) := by
  rw [← Launch.failed_iff keyboard]
  rcases Launch.ofArguments_cases keyboard words read with ⟨cause, hresult⟩ | hresult |
    ⟨hresult, n, hn, hreport⟩ | ⟨settings, contents, w, hopened, hresult⟩
  · have hrun : run keyboard words read events =
        ⟨(Launch.ofArguments keyboard words read).notices, .escaped (.launch cause)⟩ := by
      simp only [run, hresult]
    simp [hrun, hresult]
  · have hrun : run keyboard words read events =
        ⟨(Launch.ofArguments keyboard words read).notices, .help CommandLine.helpText⟩ := by
      simp only [run, hresult]
    simp [hrun, hresult]
  · have hrun : run keyboard words read events =
        ⟨(Launch.ofArguments keyboard words read).notices, .returned 1⟩ := by
      simp only [run, hresult]
    refine ⟨by simp [hrun, hresult], fun _ => by simp [hrun], ?_⟩
    intro _
    rw [hrun]
    exact Notice.reportsFailure_of_mem hn hreport
  · obtain ⟨hstandard, -, hfailed⟩ := Window.state_of_opened hopened
    have hrun : run keyboard words read events =
        ⟨(Launch.ofArguments keyboard words read).notices ++ w.notices events,
          .returned (if (w.after events).failed then 1 else 0)⟩ := by
      simp only [run, hresult, Window.run_eq hstandard]
      rfl
    cases hnow : (w.after events).failed with
    | false => simp [hrun, hnow, hresult]
    | true =>
      obtain ⟨n, hn, hreport⟩ := Window.exists_report hstandard hfailed hnow
      refine ⟨by simp [hrun, hresult], fun _ => by simp [hrun, hnow], ?_⟩
      intro _
      rw [hrun]
      exact Notice.reportsFailure_of_mem (List.mem_append_right _ hn) hreport

/-- A rate that a command line gives, and that is too large, ends a run without a report. -/
theorem ending_of_rate (keyboard : Keyboard) {n : Nat} (hwritable : Numeral.Writable n)
    (hlarge : Window.rateLimit ≤ n) {read : String → Except ReadError (List UInt8)}
    {rom : List UInt8} (hread : read "a.ch8" = .ok rom)
    (hroom : Memory.programStart + rom.length ≤ Memory.standardSize) (events : List WindowEvent) :
    (run keyboard ["a.ch8", "--cpu-hz", Numeral.decimal n] read events).ending =
      .escaped (.launch (.rate ⟨n⟩)) := by
  obtain ⟨settings, hrequest, hrom, hrate⟩ :=
    CommandLine.exists_settings_of_rate hwritable (Window.rateLimit_pos.trans_le hlarge)
  obtain ⟨memory, hload⟩ : ∃ memory, Rom.load settings.rom (.ok rom) = .ok memory :=
    ⟨_, Rom.load_eq_ok_iff.mpr ⟨rom, rfl, hroom, rfl⟩⟩
  have hinterval : Window.interval settings.cpuHz = .error ⟨n⟩ :=
    Window.interval_eq_error_iff.mpr ⟨hrate.symm ▸ hlarge, by rw [hrate]⟩
  have hresult : (Launch.ofArguments keyboard ["a.ch8", "--cpu-hz", Numeral.decimal n] read).result =
      .failed (.rate ⟨n⟩) := by
    rw [Launch.ofArguments]
    simp only [hrequest]
    rw [Launch.result_run, hrom, hread, ← hrom, hload]
    simp only [Window.start, hinterval]
    rfl
  simp only [run, hresult]

/-- Two dashes for the scale end a run without a report, though its program is there, and so do a
name with the character zero in it and a rate with four hundred zeros. -/
theorem two_dashes_escape :
    (run .standard ["a.ch8", "--scale=--"] (Disk.ofNames [] [("a.ch8", [0x00, 0xE0])]).read
        []).ending = .escaped (.launch (.request (.badAmount (.missing .scale)))) ∧
      (run .standard ["a\x00.ch8"] (Disk.ofNames [] [("a.ch8", [0x00, 0xE0])]).read []).ending =
        .escaped (.launch (.rom .zeroInName)) ∧
      (run .standard ["a.ch8", "--cpu-hz", Numeral.decimal (Nat.pow 10 400)]
          (Disk.ofNames [] [("a.ch8", [0x00, 0xE0])]).read []).ending =
        .escaped (.launch (.rate ⟨Nat.pow 10 400⟩)) := by
  have hwritable : Numeral.Writable (Nat.pow 10 400) := by
    apply Numeral.writable_pow
    decide
  refine ⟨rfl, rfl, ?_⟩
  exact ending_of_rate .standard hwritable (by decide +kernel) rfl (by decide) []

end Application

end Chip8
