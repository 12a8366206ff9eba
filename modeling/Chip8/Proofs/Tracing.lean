import Chip8.Proofs.LoggerStates
import Chip8.Proofs.Runs
import Chip8.Proofs.TraceLines
import Chip8.Proofs.Transparency
import Mathlib.Data.List.Forall2

/-!
# The trace is faithful

A step writes about itself in a fixed order (`Machine.Writes`): nothing if its word cannot be fetched,
the announcement alone if the instruction fails, and the announcement, at most one remark and the
registers if it completes.  A sequence of actions writes what its steps write, one after the other,
and with tracing on throughout each line of it stands in the log once.

So the log tells what has happened: each announcement gives the address and the word of a step, as
they were when the step was taken, and each register line stands for a step that has completed.

The main result is `Session.trace_is_faithful`.
-/

namespace Chip8

open Trace

namespace Machine

/-- What a step on a machine writes, line by line. -/
inductive Writes (m : Machine) : List String → Prop
  /-- The word at the program counter does not lie in memory. -/
  | nothing {fault : Fault} (hfetch : ¬ m.memory.InBounds m.pc 2)
      (hresult : m.step.result = .error fault) : Writes m []
  /-- The word has been fetched, but the instruction fails. -/
  | failed {fault : Fault} (hfetch : m.memory.InBounds m.pc 2)
      (hresult : m.step.result = .error fault) : Writes m [announcement m.pc m.word]
  | completed {remark : Option String} (hfetch : m.memory.InBounds m.pc 2)
      (hresult : m.step.result = .ok (.decode m.word))
      (hremark : (Instruction.decode m.word).remark? m.step.machine = remark) :
      Writes m (announcement m.pc m.word :: (remark.toList ++ [m.step.machine.registers]))

variable {m : Machine} {steps : List Machine} {blocks : List (List String)} {lines : List String}

/-! ## One step -/

/-- A fetched instruction is announced by its address and its word. -/
theorem traceLine_word (m : Machine) :
    (Instruction.ofWord (UInt16.ofNat m.word)).traceLine m.pc = announcement m.pc m.word := by
  have hopcode : (Instruction.ofWord (UInt16.ofNat m.word)).opcode.toNat = m.word :=
    UInt16.toNat_ofNat_of_lt' m.word_lt
  rw [Instruction.traceLine, hopcode, announcement, Instruction.decode_natCast]

theorem writes_traceStep (m : Machine) : m.Writes m.traceStep := by
  have hstep := m.step_eq
  rw [traceStep]
  rw [fetch_eq] at hstep ⊢
  by_cases hfetch : m.memory.InBounds m.pc 2
  · rw [if_pos hfetch] at hstep ⊢
    simp only [traceLine_word] at hstep ⊢
    cases hexec : (execute (.ofWord (UInt16.ofNat m.word))).run m.advance with
    | error fault next =>
      simp only [hexec] at hstep ⊢
      exact .failed hfetch (congrArg Outcome.result hstep)
    | ok _ next =>
      simp only [hexec] at hstep ⊢
      have hresult : m.step.result = .ok (.decode m.word) := by
        rw [hstep, Instruction.decode_natCast]
      -- The cycle that is counted last shows in neither of the two lines.
      have hremark : (Instruction.decode m.word).remark? m.step.machine =
          (Instruction.ofWord (UInt16.ofNat m.word)).remark? next := by
        rw [hstep, Instruction.decode_natCast]
        rfl
      have hregisters : m.step.machine.registers = next.registers := by
        rw [hstep]
        rfl
      rw [← hregisters]
      exact .completed hfetch hresult hremark
  · rw [if_neg hfetch] at hstep ⊢
    exact .nothing hfetch (congrArg Outcome.result hstep)

/-- The address and the word of each step that fetches its word. -/
def fetched (steps : List Machine) : List (Int × Nat) :=
  (steps.filter fun before => before.memory.InBounds before.pc 2).map fun before =>
    (before.pc, before.word)

theorem fetched_cons (m : Machine) (steps : List Machine) :
    fetched (m :: steps) = fetched [m] ++ fetched steps := by
  rw [fetched, fetched, fetched, ← List.map_append, ← List.filter_append, List.singleton_append]

theorem completions_cons (m : Machine) (steps : List Machine) :
    completions (m :: steps) = completions [m] + completions steps := by
  rw [completions, completions, completions, ← List.countP_append, List.singleton_append]

/-- What a step has written tells its word, if it has one, and whether it has completed. -/
theorem Writes.readings (h : m.Writes lines) :
    announced (readLines lines) = fetched [m] ∧
      registerLines (readLines lines) = completions [m] := by
  cases h with
  | nothing hfetch hresult =>
    have hfetched : fetched [m] = [] := by simp [fetched, hfetch]
    rw [hfetched, completions_cons_of_error hresult]
    exact ⟨rfl, rfl⟩
  | failed hfetch hresult =>
    have hfetched : fetched [m] = [(m.pc, m.word)] := by simp [fetched, hfetch]
    rw [hfetched, completions_cons_of_error hresult, readLines_announcement hfetch.1 m.word_lt]
    exact ⟨rfl, rfl⟩
  | @completed remark hfetch hresult hremark =>
    have hfetched : fetched [m] = [(m.pc, m.word)] := by simp [fetched, hfetch]
    have hbetween : readLines remark.toList = remark.toList.map fun _ => .remark := by
      apply List.map_congr_left
      intro line hline
      exact readLine_remark (hremark.trans (Option.mem_toList.mp hline))
    have hclosing : readLines [m.step.machine.registers] = [.registers] := by
      rw [readLines, List.map_singleton, readLine_registers]
    have hlines : readLines (announcement m.pc m.word ::
        (remark.toList ++ [m.step.machine.registers])) =
          .announcement m.pc m.word :: (remark.toList.map (fun _ => .remark) ++ [.registers]) := by
      rw [← List.singleton_append, readLines_append, readLines_append, hclosing, hbetween,
        readLines_announcement hfetch.1 m.word_lt, List.singleton_append]
    rw [hfetched, completions_cons_of_ok hresult, hlines]
    cases remark <;> exact ⟨rfl, rfl⟩

theorem Writes.newline_not_mem (h : m.Writes lines) : ∀ line ∈ lines, '\n' ∉ line.toList := by
  cases h with
  | nothing hfetch hresult => simp
  | failed hfetch hresult => simp [newline_not_mem_announcement]
  | @completed remark hfetch hresult hremark =>
    intro line hline
    rcases List.mem_cons.mp hline with rfl | hline
    · exact newline_not_mem_announcement m.pc m.word
    rcases List.mem_append.mp hline with hline | hline
    · exact (plain_remark (hremark.trans (Option.mem_toList.mp hline))).2
    · obtain rfl := List.mem_singleton.mp hline
      exact (plain_registers _).2

/-! ## Sequences of steps -/

/-- What some steps have written tells the words that they have fetched and how many of them have
completed. -/
theorem readings_of_forall₂ (h : List.Forall₂ Writes steps blocks) :
    announced (readLines blocks.flatten) = fetched steps ∧
      registerLines (readLines blocks.flatten) = completions steps := by
  induction h with
  | nil => exact ⟨rfl, rfl⟩
  | @cons m lines steps blocks hfirst hrest ih =>
    obtain ⟨hfetched, hcompleted⟩ := hfirst.readings
    obtain ⟨hfetchedLater, hcompletedLater⟩ := ih
    rw [List.flatten_cons, readLines_append, announced_append, registerLines_append,
      fetched_cons, completions_cons, hfetched, hcompleted, hfetchedLater, hcompletedLater]
    exact ⟨rfl, rfl⟩

theorem forall₂_traceStep (steps : List Machine) :
    List.Forall₂ Writes steps (steps.map traceStep) := by
  rw [List.forall₂_map_right_iff, List.forall₂_same]
  intro m _
  exact m.writes_traceStep

theorem traceRun_eq (n : Nat) (m : Machine) : m.traceRun n = (m.runAttempts n).flatMap traceStep := by
  induction n generalizing m with
  | zero => rfl
  | succ n ih =>
    rw [traceRun, runAttempts, List.flatMap_cons]
    rcases m.step with ⟨next, fault | ins⟩
    · rfl
    · exact congrArg _ (ih next)

/-- An action writes what its steps write. -/
theorem trace_eq (m : Machine) (action : Action) :
    m.trace action = (m.attempted action).flatMap traceStep := by
  cases action with
  | step => exact (List.flatMap_singleton ..).symm
  | run n => exact m.traceRun_eq n
  | _ => rfl

end Machine

/-! ## Sessions -/

theorem Logger.Stands.logAll {l : Logger} {host : Bool} {calls : List LoggerCall}
    (h : Logger.Stands host calls l) (hon : l.on = true) (lines : List String) :
    (l.logAll fun _ => lines) = lines.map (LogEntry.mk (Logger.sink host)) := by
  have hlevel : l.level = .debug := by rw [h.level, if_pos hon]
  have hrecord : l.record .debug = fun line => [⟨Logger.sink host, line⟩] :=
    funext (h.record (.of_isOn (h.on.symm.trans hon)) (Nat.le_of_eq (congrArg LogLevel.rank hlevel)))
  rw [Logger.logAll, if_pos hon, hrecord]
  exact List.map_eq_flatMap.symm

namespace Session

variable {s : Session} {host : Bool} {calls : List LoggerCall} {commands : List Command}

/-- With tracing on throughout, the log holds what the steps write, each line once. -/
theorem entries_eq_of_on (hstands : Logger.Stands host calls s.logger)
    (hon : ∀ before, before <+: commands → (s.after before).logger.on = true) :
    s.entries commands =
      ((s.machine.attempts (commands.filterMap Command.action?)).flatMap Machine.traceStep).map
        (LogEntry.mk (Logger.sink host)) := by
  induction commands generalizing s calls with
  | nil => rfl
  | cons command commands ih =>
    have hnow : s.logger.on = true := hon [] List.nil_prefix
    have hlater : ∀ before, before <+: commands →
        ((s.perform command).session.after before).logger.on = true := by
      intro before hbefore
      exact hon (command :: before) (List.cons_prefix_cons.mpr ⟨rfl, hbefore⟩)
    rw [entries]
    cases command with
    | act action =>
      have hrest := ih (s := (s.perform (.act action)).session) hstands hlater
      rw [perform_act] at hrest ⊢
      rw [hrest, hstands.logAll hnow, Machine.trace_eq, ← List.map_append,
        ← List.flatMap_append]
      rfl
    | setLogs on => exact ih (hstands.call (.setLogs on)) hlater
    | toggleLogs =>
      -- Tracing would be off behind it.
      have hnext : (!s.logger.on) = true := hlater [] List.nil_prefix
      rw [hnow] at hnext
      cases hnext

/-- **The trace is faithful.**  With tracing on throughout, the log of a session holds what the steps
write that are taken, one after the other and each line once: a step whose word cannot be fetched
writes nothing, one that fails announces its instruction, and one that completes announces its
instruction, makes at most one remark and closes with the registers behind it.  No remark can be taken
for another line, so the addresses and words of all fetches and the number of the steps that have
completed can be read back from the messages, and also from the text that a handler of the logger's
own makes of them. -/
theorem trace_is_faithful (hlogger : s.logger = (Logger.initial host).afterCalls calls)
    (hon : ∀ before, before <+: commands → (s.after before).logger.on = true) :
    let steps := s.machine.attempts (commands.filterMap Command.action?)
    let readings := (s.entries commands).map fun entry => readLine entry.message.toList
    (∃ blocks, List.Forall₂ Machine.Writes steps blocks ∧
      s.entries commands = blocks.flatten.map (LogEntry.mk (Logger.sink host))) ∧
    announced readings = Machine.fetched steps ∧
    registerLines readings = Machine.completions steps ∧
    (LogEntry.lines (LogEntry.join (s.entries commands))).map readLine = readings := by
  intro steps readings
  have hstands : Logger.Stands host calls s.logger := hlogger ▸ Logger.stands_after host calls
  have hblocks := Machine.forall₂_traceStep steps
  have hentries : s.entries commands =
      (steps.map Machine.traceStep).flatten.map (LogEntry.mk (Logger.sink host)) := by
    rw [← List.flatMap_def]
    exact entries_eq_of_on hstands hon
  have hbreaks : ∀ line ∈ (steps.map Machine.traceStep).flatten, '\n' ∉ line.toList := by
    intro line hline
    obtain ⟨m, -, hmem⟩ := List.mem_flatMap.mp (List.flatMap_def ▸ hline)
    exact m.writes_traceStep.newline_not_mem line hmem
  have hreadings : readings = readLines (steps.map Machine.traceStep).flatten := by
    simp only [readings, hentries, readLines, List.map_map]
    rfl
  have htext : (LogEntry.lines (LogEntry.join (s.entries commands))).map readLine = readings := by
    rw [hreadings, hentries, LogEntry.lines_join hbreaks, readLines, List.map_map]
    rfl
  obtain ⟨hfetched, hcompleted⟩ := Machine.readings_of_forall₂ hblocks
  rw [← hreadings] at hfetched hcompleted
  exact ⟨⟨_, hblocks, hentries⟩, hfetched, hcompleted, htext⟩

/-- A session that traces a machine which is about to set a register and then to return without a
call. -/
def tracedReturn : Session :=
  ⟨Machine.loadThenReturn, (Logger.initial false).afterCalls [.setLogs true]⟩

/-- Both words are announced, and one instruction has completed. -/
theorem tracedReturn_faithful :
    let readings := (LogEntry.lines (LogEntry.join
      (tracedReturn.entries [.act (.run 9)]))).map readLine
    announced readings = [(0, 0x6012), (2, 0x00EE)] ∧ registerLines readings = 1 := by
  have hlogger : tracedReturn.logger = (Logger.initial false).afterCalls [.setLogs true] := rfl
  have hon : ∀ before, before <+: [Command.act (.run 9)] →
      (tracedReturn.after before).logger.on = true := by
    intro before hbefore
    rcases List.prefix_cons_iff.mp hbefore with rfl | ⟨rest, rfl, hrest⟩
    · rfl
    · obtain rfl := List.prefix_nil.mp hrest
      rfl
  obtain ⟨-, hannounced, hcompleted, htext⟩ := trace_is_faithful hlogger hon
  intro readings
  simp only [readings, htext]
  exact ⟨hannounced.trans rfl, hcompleted.trans rfl⟩

end Session

end Chip8
