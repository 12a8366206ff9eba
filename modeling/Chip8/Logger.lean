import Chip8.Numeral

/-!
# The logger

Tracing is off at first and is switched while the console runs.  Messages go to the handler of the
host application if it has one.  Otherwise the logger makes a handler of its own the first time
tracing is switched on, and keeps it; from then on it passes nothing to the host.
-/

namespace Chip8

/-- How much is written. -/
inductive LogLevel where
  | debug
  | warning
deriving DecidableEq, Repr

/-- The rank of a level: a message is written if it ranks at least as high as the logger. -/
def LogLevel.rank : LogLevel → Nat
  | debug => 10
  | warning => 30

structure Logger where
  /-- Whether the host application handles messages. -/
  hostHandler : Bool
  on : Bool
  /-- The number of handlers that the logger has made. -/
  ownHandlers : Nat
  /-- Whether messages are passed to the host. -/
  propagate : Bool
  level : LogLevel
deriving DecidableEq, Repr

/-- A value in a message. -/
inductive LogValue where
  | text (value : String)
  | number (value : Int) (writable : Numeral.Writable value)
  | flag (value : Bool)
  | nothing
deriving DecidableEq, Repr

/-- The value as it stands in a message. -/
def LogValue.shown : LogValue → String
  | text value => value
  | number value _ => Numeral.decimal value
  | flag true => "True"
  | flag false => "False"
  | nothing => "None"

/-- Who writes a message. -/
inductive LogSink where
  | own
  | host
deriving DecidableEq, Repr

/-- A message that is written. -/
structure LogEntry where
  sink : LogSink
  message : String
deriving DecidableEq, Repr

/-- An entry as a handler of the logger's own writes it.  How a host writes the messages that it is
passed is for the host to say. -/
def LogEntry.text (e : LogEntry) : String :=
  e.message ++ "\n"

/-- Entries as they appear one after the other. -/
def LogEntry.join (entries : List LogEntry) : String :=
  String.join (entries.map text)

namespace Logger

/-- The logger when the application starts. -/
def initial (hostHandler : Bool) : Logger where
  hostHandler := hostHandler
  on := false
  ownHandlers := 0
  propagate := true
  level := .warning

/-- Switches tracing on or off. -/
def setLogs (l : Logger) (on : Bool) : Logger :=
  let l := if on && l.ownHandlers == 0 && !l.hostHandler then
      { l with ownHandlers := 1, propagate := false }
    else l
  { l with on := on, level := if on then .debug else .warning }

/-- Hands a message of a level to the handlers. -/
def record (l : Logger) (level : LogLevel) (message : String) : List LogEntry :=
  if l.level.rank ≤ level.rank then
    List.replicate l.ownHandlers ⟨.own, message⟩ ++
      if l.propagate && l.hostHandler then [⟨.host, message⟩] else []
  else []

/-- Switches tracing over, and writes which way. -/
def toggle (l : Logger) : Logger × List LogEntry :=
  let next := l.setLogs !l.on
  (next, next.record .warning ("logsOn: " ++ (LogValue.flag next.on).shown))

/-- Writes a message if tracing is on. -/
def log (l : Logger) (message : String) : List LogEntry :=
  if l.on then l.record .debug message else []

/-- A message made of values. -/
def message (values : List LogValue) : String :=
  " ".intercalate (values.map LogValue.shown)

/-- Writes several messages if tracing is on; otherwise they are not even made. -/
def logAll (l : Logger) (messages : Unit → List String) : List LogEntry :=
  if l.on then (messages ()).flatMap (l.record .debug) else []

theorem logAll_of_off {l : Logger} (h : l.on = false) (messages : Unit → List String) :
    l.logAll messages = [] := by
  simp [logAll, h]

end Logger

end Chip8
