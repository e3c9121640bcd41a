/-
  Reports: what dispatch has to say about the next command of a comment.

  * `Report` is nothing, a command, a refusal or an ambiguity;
  * `Outcome.report` is the report that a single claim gives.
-/
import MentionCommands.Grammar.Basic

namespace MentionCommands

/-- What is reported about the next command. -/
inductive Report where
  /-- There is no command. -/
  | nothing
  /-- A grammar read a command. -/
  | matched (grammar : Text) (command : Command)
  /-- A grammar refused a command. -/
  | rejected (grammar : Text) (error : Diagnostic)
  /-- Several grammars claimed a command. -/
  | ambiguous (ambiguity : Ambiguity)
  deriving DecidableEq, Repr

namespace Report

/-- The name of a report. -/
def label : Report → Text
  | nothing => "none".toList
  | matched _ _ => "matched".toList
  | rejected _ _ => "rejected".toList
  | ambiguous _ => "ambiguous".toList

/-- Whether nothing is wrong with the comment so far. -/
def isOk : Report → Bool
  | nothing | matched _ _ => true
  | rejected _ _ | ambiguous _ => false

/-- The grammar that claimed the command alone. -/
def grammar? : Report → Option Text
  | matched grammar _ | rejected grammar _ => some grammar
  | nothing | ambiguous _ => none

/-- The command that was read. -/
def command? : Report → Option Command
  | matched _ command => some command
  | _ => none

/-- What is wrong. -/
def error? : Report → Option CommandError
  | rejected _ error => some (.diagnostic error)
  | ambiguous ambiguity => some (.ambiguity ambiguity)
  | nothing | matched _ _ => none

end Report

/-- The report that an attempt gives, if it is the only claim. -/
def Outcome.report (o : Outcome) : Report :=
  match o.verdict with
  | .notMine => .nothing
  | .matched command => .matched o.grammar command
  | .rejected error => .rejected o.grammar error

end MentionCommands
