import Chip8.Logger
import Mathlib.Data.List.Induction

/-!
# States of the logger

A line would be written twice if the logger handed it to a handler of its own and passed it to the
host as well, and would be lost if it did neither.  Neither happens, whatever the calls so far: the
logger makes at most one handler, only where the host has none, and passes nothing on from then on
(`Logger.Stands`).  The calls that have something to write are written once, through the handler of
the host if there is one and otherwise through the logger's own (`Logger.Answers`).

The dangerous call is the one that switches tracing off, because it is written although tracing is
off by then.  Tracing has been on before it, so somebody is there to write it.

The main result is `Logger.writes_each_line_once`.
-/

namespace Chip8

/-! ## Calls -/

/-- What an application asks of the logger. -/
inductive LoggerCall where
  | setLogs (on : Bool)
  | toggle
  | log (values : List LogValue)
deriving DecidableEq, Repr

namespace LoggerCall

/-- Whether tracing is on after a call. -/
def switch (on : Bool) : LoggerCall → Bool
  | setLogs value => value
  | toggle => !on
  | log _ => on

/-- Whether tracing is on after some calls, if it is off at first. -/
def isOnAfter (calls : List LoggerCall) : Bool :=
  calls.foldl switch false

/-- Whether tracing has been on at some point of some calls. -/
def WasOn (calls : List LoggerCall) : Prop :=
  ∃ past, past <+: calls ∧ isOnAfter past = true

variable {calls : List LoggerCall} {call : LoggerCall}

theorem isOnAfter_concat (calls : List LoggerCall) (call : LoggerCall) :
    isOnAfter (calls ++ [call]) = switch (isOnAfter calls) call := by
  rw [isOnAfter, List.foldl_append]
  rfl

theorem WasOn.of_isOn (h : isOnAfter calls = true) : WasOn calls :=
  ⟨calls, List.prefix_refl calls, h⟩

theorem wasOn_concat :
    WasOn (calls ++ [call]) ↔ WasOn calls ∨ isOnAfter (calls ++ [call]) = true := by
  constructor
  · rintro ⟨past, hpast, hon⟩
    obtain rfl | hearlier := List.prefix_concat_iff.mp hpast
    · exact .inr hon
    · exact .inl ⟨past, hearlier, hon⟩
  · rintro (⟨past, hpast, hon⟩ | hon)
    · exact ⟨past, hpast.trans (List.prefix_append calls [call]), hon⟩
    · exact .of_isOn hon

end LoggerCall

/-- What a call leaves behind: the logger, an answer if there is one, and what is written. -/
structure LoggerReply where
  logger : Logger
  answer : Option Bool
  entries : List LogEntry

namespace Logger

open LoggerCall

/-- Answers a call. -/
def call (l : Logger) : LoggerCall → LoggerReply
  | .setLogs on => ⟨l.setLogs on, none, []⟩
  | .toggle =>
    let (next, entries) := l.toggle
    ⟨next, some next.on, entries⟩
  | .log values => ⟨l, none, l.log (message values)⟩

/-- The logger after some calls. -/
def afterCalls (l : Logger) (calls : List LoggerCall) : Logger :=
  calls.foldl (fun l c => (l.call c).logger) l

variable {l : Logger} {host : Bool} {calls : List LoggerCall} {c : LoggerCall}

theorem afterCalls_concat (l : Logger) (calls : List LoggerCall) (c : LoggerCall) :
    l.afterCalls (calls ++ [c]) = ((l.afterCalls calls).call c).logger := by
  rw [afterCalls, List.foldl_append]
  rfl

/-! ## How the logger stands -/

/-- How a logger stands after some calls, for a host that has a handler or has none. -/
structure Stands (host : Bool) (calls : List LoggerCall) (l : Logger) : Prop where
  hostHandler : l.hostHandler = host
  on : l.on = isOnAfter calls
  level : l.level = if l.on then .debug else .warning
  atMostOne : l.ownHandlers = 0 ∨ l.ownHandlers = 1
  ownHandlers : l.ownHandlers = 1 ↔ host = false ∧ WasOn calls
  propagate : l.propagate = true ↔ l.ownHandlers = 0

theorem stands_initial (host : Bool) : Stands host [] (initial host) where
  hostHandler := rfl
  on := rfl
  level := rfl
  atMostOne := .inl rfl
  ownHandlers := by
    have hnever : ¬ WasOn [] := by
      rintro ⟨past, hpast, hon⟩
      obtain rfl := List.prefix_nil.mp hpast
      cases hon
    simp [initial, hnever]
  propagate := by simp [initial]

/-- A handler is made when tracing is switched on for the first time without a handler of the
host's. -/
theorem Stands.setLogs (h : Stands host calls l) :
    Stands host (calls ++ [c]) (l.setLogs (isOnAfter (calls ++ [c]))) := by
  obtain ⟨hhost, hon, hlevel, hmost, hown, hpropagate⟩ := h
  unfold Logger.setLogs
  by_cases hmakes : (isOnAfter (calls ++ [c]) && l.ownHandlers == 0 && !l.hostHandler) = true
  · simp only [hmakes, if_true]
    simp only [Bool.and_eq_true, beq_iff_eq, Bool.not_eq_true'] at hmakes
    obtain ⟨⟨hnow, hnone⟩, hfree⟩ := hmakes
    constructor
    · exact hhost
    · rfl
    · rfl
    · exact .inr rfl
    · simp [← hhost, hfree, wasOn_concat, hnow]
    · simp
  · simp only [hmakes]
    constructor
    · exact hhost
    · rfl
    · rfl
    · exact hmost
    · constructor
      · intro hone
        obtain ⟨hfree, hwas⟩ := hown.mp hone
        exact ⟨hfree, wasOn_concat.mpr (.inl hwas)⟩
      · rintro ⟨hfree, hwas⟩
        obtain hbefore | hnow := wasOn_concat.mp hwas
        · exact hown.mpr ⟨hfree, hbefore⟩
        · -- Without a handler one would be made now.
          obtain hnone | hone := hmost
          · exact absurd (by simp [hnow, hnone, hhost, hfree]) hmakes
          · exact hone
    · exact hpropagate

/-- A message leaves the logger as it is. -/
theorem Stands.log (h : Stands host calls l) (values : List LogValue) :
    Stands host (calls ++ [.log values]) l := by
  have hsame : isOnAfter (calls ++ [.log values]) = isOnAfter calls := isOnAfter_concat calls _
  have hwas : WasOn (calls ++ [.log values]) ↔ WasOn calls := by
    rw [wasOn_concat, hsame]
    exact or_iff_left_of_imp .of_isOn
  exact { h with
    on := h.on.trans hsame.symm
    ownHandlers := by rw [hwas, h.ownHandlers] }

theorem Stands.call (h : Stands host calls l) (c : LoggerCall) :
    Stands host (calls ++ [c]) (l.call c).logger := by
  have hnext : isOnAfter (calls ++ [c]) = switch l.on c := by rw [isOnAfter_concat, h.on]
  have hset := h.setLogs (c := c)
  rw [hnext] at hset
  cases c with
  | setLogs on => exact hset
  | toggle => exact hset
  | log values => exact h.log values

theorem stands_after (host : Bool) (calls : List LoggerCall) :
    Stands host calls ((initial host).afterCalls calls) := by
  induction calls using List.reverseRecOn with
  | nil => exact stands_initial host
  | append_singleton past c ih =>
    rw [afterCalls_concat]
    exact ih.call c

/-! ## What is written -/

/-- Who writes the lines of a logger. -/
def sink (host : Bool) : LogSink :=
  if host then .host else .own

/-- Once tracing has been on, a line that ranks high enough is written once. -/
theorem Stands.record (h : Stands host calls l) (hwas : WasOn calls) {level : LogLevel}
    (hrank : l.level.rank ≤ level.rank) (line : String) :
    l.record level line = [⟨sink host, line⟩] := by
  rw [Logger.record, if_pos hrank, h.hostHandler]
  cases host with
  | true =>
    have hnone : l.ownHandlers = 0 := by
      obtain hnone | hone := h.atMostOne
      · exact hnone
      · obtain ⟨hfree, -⟩ := h.ownHandlers.mp hone
        cases hfree
    rw [hnone, h.propagate.mpr hnone]
    rfl
  | false =>
    have hone : l.ownHandlers = 1 := h.ownHandlers.mpr ⟨rfl, hwas⟩
    rw [hone, Bool.and_false]
    rfl

/-- How a logger answers the next call, for a host that has a handler or has none: what is written
is written once, and a message is the text of its values with blanks between them. -/
structure Answers (host : Bool) (l : Logger) : Prop where
  setLogs : ∀ on, (l.call (.setLogs on)).entries = []
  toggle : (l.call .toggle).answer = some !l.on ∧
    (l.call .toggle).entries = [⟨sink host, "logsOn: " ++ (LogValue.flag !l.on).shown⟩]
  log : ∀ values, (l.call (.log values)).entries =
    if l.on then [⟨sink host, " ".intercalate (values.map LogValue.shown)⟩] else []

theorem Stands.answers (h : Stands host calls l) : Answers host l where
  setLogs := fun _ => rfl
  toggle := by
    refine ⟨rfl, ?_⟩
    have hnext : Stands host (calls ++ [.toggle]) (l.setLogs !l.on) := h.call .toggle
    -- It is on before the call or after it.
    have hwas : WasOn (calls ++ [.toggle]) := by
      rw [wasOn_concat, isOnAfter_concat]
      cases hon : isOnAfter calls with
      | true => exact .inl (.of_isOn hon)
      | false => exact .inr rfl
    refine hnext.record hwas ?_ _
    rw [hnext.level]
    split <;> decide
  log := by
    intro values
    show l.log (message values) = _
    rw [Logger.log]
    split
    next hon =>
      have hwas : WasOn calls := .of_isOn (h.on.symm.trans hon)
      have hlevel : l.level = .debug := by rw [h.level, if_pos hon]
      exact h.record hwas (Nat.le_of_eq (congrArg LogLevel.rank hlevel)) _
    next => rfl

/-- **Each line is written once.**  After any calls the logger has a handler of its own exactly if the
host has none and tracing has been on, it passes lines on exactly if it has none, and its level goes
with tracing; a message while tracing is on and each switching over is written once, by one handler,
and nothing else is written. -/
theorem writes_each_line_once (host : Bool) (calls : List LoggerCall) :
    Stands host calls ((initial host).afterCalls calls) ∧
      Answers host ((initial host).afterCalls calls) :=
  ⟨stands_after host calls, (stands_after host calls).answers⟩

/-- The handler that the first switching over has made writes the third one too. -/
example : ((initial false).afterCalls [.toggle, .toggle]).call .toggle =
    ⟨⟨false, true, 1, false, .debug⟩, some true, [⟨.own, "logsOn: True"⟩]⟩ := by
  rfl

end Logger

end Chip8
