/-
  Log records: what happens in the course of dispatch.

  * `CodeIndex.record` tells of the code in a comment, `Session.records` of one step of a session;
  * `Record.line` is how a record is written, `written` the lines at a threshold.
-/
import MentionCommands.Dispatch.Session
import MentionCommands.Log.Level

namespace MentionCommands

/-- A log record. -/
structure Record where
  level : Level
  /-- The part of the program that speaks. -/
  source : Text
  message : Text
  deriving DecidableEq, Repr

/-- The line of a record. -/
def Record.line (r : Record) : Text :=
  r.level.label ++ " - ".toList ++ r.source ++ " - ".toList ++ r.message

/-- The lines that are written at a threshold. -/
def written (threshold : Nat) (records : List Record) : List Text :=
  (records.filter fun r => shownFrom threshold ≤ r.level.severity).map Record.line

/-! ## What is recorded -/

/-- The record of the code in a comment. -/
def CodeIndex.record (index : CodeIndex) : Record :=
  ⟨.debug, "botcommands.code_blocks".toList,
    "Found ".toList ++ Text.ofNat index.spans.length ++ " code spans: ".toList ++
      index.spansForm⟩

/-- A record of dispatch. -/
def dispatchRecord (level : Level) (message : Text) : Record :=
  ⟨level, "botcommands.parser".toList, message⟩

/-- The record of what a grammar says. -/
def Outcome.record (o : Outcome) : Record :=
  dispatchRecord .info
    ("Parsed ".toList ++ o.grammar ++ " command: ".toList ++ o.verdict.label ++ [' '] ++
      o.verdict.debugForm)

/-- The records of what becomes of a command at an offset. -/
def Decision.records (start : Nat) : Decision → List Record
  | ambiguous ambiguity =>
    [dispatchRecord .warning ("Refusing to dispatch: ".toList ++ ambiguity.message)]
  | inCode code stop =>
    [dispatchRecord .info
      ("Command at ".toList ++ Text.ofNat start ++ "..".toList ++ Text.ofNat stop ++
        " overlaps code at ".toList ++ Text.ofNat code.start ++ "..".toList ++
        Text.ofNat code.stop)]
  | claimed _ | unclaimed => []

/-- The records of a sighting. -/
def Sighting.records (g : Sighting) : List Record :=
  dispatchRecord .info ("Identified potential command at position ".toList ++ Text.ofNat g.start) ::
    g.outcomes.map Outcome.record

/-- The records of the next step of a session. -/
def Session.records (s : Session) : List Record :=
  match s.fault, s.sighting? with
  | none, some g => g.records ++ (s.decision g).records g.start
  | _, _ => []

/-- The records of so many steps of a session. -/
def Session.journal (s : Session) : Nat → List Record
  | 0 => []
  | n + 1 => s.records ++ s.step.2.journal n

end MentionCommands
