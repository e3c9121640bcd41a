/-
  Levels of log records.

  * `Level` are the five levels, in order of `Level.severity`;
  * `severityOf?` reads the name of a threshold: the name of a level, one of two short names, or
    the name for no threshold of its own.
-/
import MentionCommands.Text.Basic

namespace MentionCommands

/-- How important a log record is. -/
inductive Level where
  /-- Details for whoever looks for a mistake. -/
  | debug
  /-- What happens. -/
  | info
  /-- Something is odd. -/
  | warning
  /-- Something failed. -/
  | error
  /-- Everything failed. -/
  | critical
  deriving DecidableEq, Repr

namespace Level

/-- All levels, the least important one first. -/
def all : List Level := [debug, info, warning, error, critical]

/-- The name of a level. -/
def label : Level → Text
  | debug => "DEBUG".toList
  | info => "INFO".toList
  | warning => "WARNING".toList
  | error => "ERROR".toList
  | critical => "CRITICAL".toList

/-- The importance of a level as a number. -/
def severity : Level → Nat
  | debug => 10
  | info => 20
  | warning => 30
  | error => 40
  | critical => 50

/-- The level with a name. -/
def ofLabel? (name : Text) : Option Level := all.find? (·.label == name)

theorem ofLabel?_label (l : Level) : ofLabel? l.label = some l := by cases l <;> rfl

end Level

/-- The threshold with a name; zero means no threshold of its own. -/
def severityOf? (name : Text) : Option Nat :=
  if name = "NOTSET".toList then some 0
  else if name = "WARN".toList then some Level.warning.severity
  else if name = "FATAL".toList then some Level.critical.severity
  else (Level.ofLabel? name).map Level.severity

/-- The least severity that is shown: warnings, where there is no threshold of its own. -/
def shownFrom (threshold : Nat) : Nat :=
  if threshold = 0 then Level.warning.severity else threshold

end MentionCommands
