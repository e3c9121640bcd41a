/-
  Sessions: the commands of a comment, one after another.

  A session looks for the next mention of the bot, lets every grammar attempt what follows it, and
  decides: a command that several grammars claim is ambiguous; a command that touches code is
  ignored; otherwise the one claim is the report.  Only a well-formed command moves the cursor, so
  anything else is reported again and again.

  * `Session.step` is one report and the session after it; `Session.results` are the reports up to
    the first one that is no well-formed command;
  * `Sighting` and `Decision` are the two halves of a step.
-/
import MentionCommands.Code.Index
import MentionCommands.Dispatch.Mention
import MentionCommands.Dispatch.Report

namespace MentionCommands

/-! ## Sessions -/

/-- A comment in the course of dispatch. -/
structure Session where
  /-- The comment, and the code in it. -/
  code : CodeIndex
  bot : Text
  grammars : List Grammar
  /-- Where the next mention is looked for. -/
  cursor : Nat
  /-- The ambiguity that ended the session. -/
  fault : Option Ambiguity

/-- A mention, with what every grammar says about the command behind it. -/
structure Sighting where
  /-- Where the mention starts. -/
  start : Nat
  /-- Where the mention ends. -/
  stop : Nat
  outcomes : List Outcome
  deriving DecidableEq, Repr

/-- What becomes of a sighting. -/
inductive Decision where
  /-- Several grammars claim the command. -/
  | ambiguous (ambiguity : Ambiguity)
  /-- The command, which reaches up to `stop`, touches code. -/
  | inCode (code : Span) (stop : Nat)
  /-- One grammar claims the command. -/
  | claimed (outcome : Outcome)
  /-- No grammar claims the command. -/
  | unclaimed
  deriving DecidableEq, Repr

namespace Sighting

/-- The attempts that claim the command. -/
def claims (g : Sighting) : List Outcome := g.outcomes.filter Outcome.claimed

/-- How far the mention and the claimed command reach. -/
def reach (g : Sighting) : Nat := (g.claims.map Outcome.position).foldl max g.stop

end Sighting

namespace Session

/-- The session of a comment with these tokens, of which no command is read yet. -/
def ofTokens (text : Text) (tokens : List BlockToken) (bot : Text) (grammars : List Grammar) :
    Session :=
  ⟨CodeIndex.ofTokens text tokens, bot, grammars, 0, none⟩

/-- The session of a comment that a parser reads. -/
def ofText? (parse : BlockParser) (text bot : Text) (grammars : List Grammar) : Option Session :=
  (parse text).map (ofTokens text · bot grammars)

/-- The comment. -/
def text (s : Session) : Text := s.code.text

/-- The part of the comment behind which all commands are still to come. -/
def consumed (s : Session) : Text := s.text.take s.cursor

/-- The part of the comment in which commands are still to come. -/
def remaining (s : Session) : Text := s.text.drop s.cursor

/-- The short form of log lines. -/
def debugForm (s : Session) : Text :=
  "Input(bot=".toList ++ s.bot.quoted ++ ", parsed=".toList ++ Text.ofNat s.cursor ++
    ", remaining=".toList ++ Text.quoted (s.remaining.take 20) ++ [')']

/-! ## Steps -/

/-- The stream behind a mention. -/
def behindMention (s : Session) (start : Nat) : TokenStream :=
  (TokenStream.ofText s.text start).restore (start + (marker s.bot).length)

/-- The next mention, with what every grammar says about it. -/
def sighting? (s : Session) : Option Sighting :=
  (nextMention? s.text s.bot s.cursor).map fun start =>
    let stream := s.behindMention start
    ⟨start, stream.position, s.grammars.map (·.attempt stream)⟩

/-- What becomes of a sighting: ambiguity goes before code, and code before a single claim. -/
def decision (s : Session) (g : Sighting) : Decision :=
  match g.claims with
  | _ :: _ :: _ => .ambiguous ⟨g.claims.map Outcome.grammar, s.text, g.start⟩
  | claims =>
    match s.code.overlapping? g.start g.reach with
    | some span => .inCode span g.reach
    | none => claims.head?.elim .unclaimed .claimed

/-- The session after a single claim. -/
def after (s : Session) (o : Outcome) : Session :=
  match o.verdict with
  | .matched _ => { s with cursor := o.position }
  | _ => s

/-- The report on the next command, and the session after it. -/
def step (s : Session) : Report × Session :=
  match s.fault with
  | some ambiguity => (.ambiguous ambiguity, s)
  | none =>
    match s.sighting? with
    | none => (.nothing, s)
    | some g =>
      match s.decision g with
      | .ambiguous ambiguity => (.ambiguous ambiguity, { s with fault := some ambiguity })
      | .inCode _ _ | .unclaimed => (.nothing, s)
      | .claimed o => (o.report, s.after o)

/-! ## Runs -/

/-- The report on the next command. -/
def report (s : Session) : Report := s.step.1

/-- The session after the next report. -/
def next (s : Session) : Session := s.step.2

/-- The reports on a comment: one for each well-formed command, and one more if the last command
    is malformed or ambiguous.  There is no such list if some grammar leaves the stream so far
    behind that well-formed commands never end. -/
def results (s : Session) : Option (List Report) :=
  match s.report with
  | .nothing => some []
  | .matched grammar command => do
    let rest ← s.next |>.results
    return .matched grammar command :: rest
  | report => some [report]
partial_fixpoint

end Session

end MentionCommands
