/-!
# Log lines

A logger writes one line per message that reaches its threshold, in the form
"[tag] level: message". The level `off` is a threshold that nothing reaches
and never the level of a message that is written.
-/

namespace Proofline

/-- How much a log line matters, in ascending order. -/
inductive LogLevel where
  | debug
  | info
  | warning
  | error
  | off
deriving DecidableEq, Repr, Inhabited

namespace LogLevel

/-- All levels, in ascending order. -/
def all : List LogLevel := [debug, info, warning, error, off]

/-- The place of a level in the ascending order. -/
def rank : LogLevel → Nat
  | debug => 0
  | info => 1
  | warning => 2
  | error => 3
  | off => 4

/-- The name under which a level is written. -/
def name : LogLevel → String
  | debug => "debug"
  | info => "info"
  | warning => "warning"
  | error => "error"
  | off => "off"

/-- The level a text stands for; warnings have a short name as well. -/
def ofName? (text : String) : Option LogLevel :=
  if text = "warn" then some warning else all.find? fun level => level.name = text

@[simp]
theorem ofName?_name (level : LogLevel) : ofName? level.name = some level := by
  cases level <;> decide

end LogLevel

/-- A tag and the least level that is written. -/
structure Logger where
  tag : String
  threshold : LogLevel
deriving DecidableEq, Repr

namespace Logger

/-- Whether messages of `level` are written. -/
def enabled (logger : Logger) (level : LogLevel) : Bool :=
  level ≠ .off ∧ logger.threshold ≠ .off ∧ logger.threshold.rank ≤ level.rank

/-- The line written for a message, if its level is enabled. -/
def line? (logger : Logger) (level : LogLevel) (message : String) : Option String :=
  if logger.enabled level then
    some ("[" ++ logger.tag ++ "] " ++ level.name ++ ": " ++ message ++ "\n")
  else
    none

/-- The same threshold under another tag. -/
def withTag (logger : Logger) (tag : String) : Logger :=
  { logger with tag }

@[simp]
theorem enabled_withTag (logger : Logger) (tag : String) (level : LogLevel) :
    (logger.withTag tag).enabled level = logger.enabled level :=
  rfl

theorem line?_eq_none_iff (logger : Logger) (level : LogLevel) (message : String) :
    logger.line? level message = none ↔ logger.enabled level = false := by
  simp [line?]

/-- The line that reports a failure nobody else will see. -/
def failureLine? (logger : Logger) (component message : String) : Option String :=
  logger.line? .error ("unhandled failure in " ++ component ++ ": " ++ message)

end Logger

end Proofline
