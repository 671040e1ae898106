/-! Log lines, and the loggers that let them through.
Levels are ordered from the gravest to the most detailed; a logger takes a line when the line's
level is not beyond its own limit.  One logger at most is ever installed, and the limit that is
in force is the installed one's. -/

namespace Ia32Memory

inductive Level
  | error
  | warn
  | info
  | debug
  | trace
  deriving DecidableEq

namespace Level

def detail : Level → Nat
  | error => 1
  | warn => 2
  | info => 3
  | debug => 4
  | trace => 5

def name : Level → String
  | error => "ERROR"
  | warn => "WARN"
  | info => "INFO"
  | debug => "DEBUG"
  | trace => "TRACE"

end Level

/-- A limit on levels; none lets nothing through. -/
abbrev LevelLimit := Option Level

namespace LevelLimit

def detail (limit : LevelLimit) : Nat :=
  (limit.map Level.detail).getD 0

def name (limit : LevelLimit) : String :=
  (limit.map Level.name).getD "OFF"

end LevelLimit

structure LogLine where
  level : Level
  message : String
  deriving DecidableEq

def LogLine.text (l : LogLine) : String :=
  l.level.name ++ " " ++ l.message

structure Logger where
  limit : LevelLimit

namespace Logger

def enabled (l : Logger) (level : Level) : Bool :=
  level.detail ≤ LevelLimit.detail l.limit

def format? (l : Logger) (target : String) (line : LogLine) : Option String :=
  if l.enabled line.level then some s!"[{line.level.name}] {target}: {line.message}\n" else none

end Logger

structure Logging where
  logger : Option Logger

namespace Logging

def silent : Logging := ⟨none⟩

def limit (s : Logging) : LevelLimit :=
  s.logger.bind (·.limit)

def install (s : Logging) (l : Logger) : Bool × Logging :=
  match s.logger with
  | none => (true, ⟨some l⟩)
  | some _ => (false, s)

end Logging
end Ia32Memory
