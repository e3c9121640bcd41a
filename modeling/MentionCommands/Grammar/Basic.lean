/-
  Grammars: how the commands of one kind are read.

  A grammar parses the stream behind a mention of the bot, in whatever way it likes.  Most read the
  tokens ahead: tokens that do not start with the keyword are not of their kind, and they read
  nothing; behind the keyword they either accept a command or refuse, and in both cases they say
  how many characters they have read.

  * `Reading` is what a reader makes of tokens; it knows neither the text nor the offset of the
    tokens, so it depends on nothing else; `readWord` and `readOptional` read one token;
  * `Grammar` has a parse of its own; `parseTokens` is the parse that a reader gives;
  * `Grammar.attempt` is what dispatch makes of a parse: a grammar that fails to cut off the very
    first token has not seen a keyword, and claims nothing.
-/
import MentionCommands.Command
import MentionCommands.Token.Stream

namespace MentionCommands

/-! ## Readings -/

/-- Why a grammar refuses the tokens behind its keyword. -/
inductive Refusal where
  /-- The next token cannot be cut off, because of what stands `offset` characters further on. -/
  | lexical (reason : LexFault) (offset : Nat)
  /-- The next token is not what the grammar expects. -/
  | grammatical (reason : Reason)
  deriving DecidableEq, Repr

/-- What a grammar makes of the tokens ahead. -/
inductive Reading (α : Type) where
  /-- The tokens do not start with the keyword. -/
  | pass
  /-- A value, written in the next `used` characters. -/
  | accept (value : α) (used : Nat)
  /-- A refusal, behind the next `used` characters. -/
  | refuse (refusal : Refusal) (used : Nat)
  deriving DecidableEq, Repr

namespace Reading

/-- The same reading with another value. -/
def map (f : α → β) : Reading α → Reading β
  | pass => pass
  | accept value used => accept (f value) used
  | refuse refusal used => refuse refusal used

/-- The reading of a text in front of which `n` characters are read. -/
def behind (n : Nat) : Reading α → Reading α
  | pass => pass
  | accept value used => accept value (n + used)
  | refuse refusal used => refuse refusal (n + used)

/-- The refusal of what stands next. -/
def fail (reason : Reason) : Reading α := refuse (.grammatical reason) 0

/-- The refusal of a token that cannot be cut off. -/
def faulty (reason : LexFault) (offset : Nat) : Reading α := refuse (.lexical reason offset) 0

end Reading

/-- Reads a word and goes on behind it; anything else gives the reading `otherwise`. -/
def readWord (word : Text) (otherwise : Reading α) (read : Tokens → Reading α) :
    Tokens → Reading α
  | .finish => otherwise
  | .fault reason offset => .faulty reason offset
  | .next t rest => if t.isTheWord word then (read rest).behind t.stop else otherwise

/-- Reads a token that passes a test, if one stands next, and goes on behind it. -/
def readOptional (p : Token → Bool) (read : Tokens → Reading α) : Tokens → Reading α
  | .next t rest => if p t then (read rest).behind t.stop else read (.next t rest)
  | tokens => read tokens

/-! ## Grammars -/

/-- What a grammar makes of a stream. -/
structure Parse where
  /-- The command, nothing if it is of another kind, or the reason why it cannot be read. -/
  result : Except Diagnostic (Option Command)
  /-- Where the grammar left the stream. -/
  position : Nat

/-- A grammar for the commands of one kind. -/
structure Grammar where
  /-- The name of the kind. -/
  kind : Text
  /-- How a command is written behind the mention. -/
  usage : Text
  /-- What a command does, in a sentence. -/
  description : Text
  /-- What the grammar makes of the stream behind a mention. -/
  parse : TokenStream → Parse

/-- The diagnostic of a refusal at the position of a stream. -/
def Refusal.diagnostic (s : TokenStream) : Refusal → Diagnostic
  | lexical reason offset => s.lexicalFailure reason offset
  | grammatical reason => s.failure reason

/-- The parse that a reading of the tokens ahead of a stream gives. -/
def Reading.parse (s : TokenStream) : Reading Command → Parse
  | pass => ⟨.ok none, s.position⟩
  | accept command used => ⟨.ok (some command), s.position + used⟩
  | refuse refusal used =>
    let stopped := s.restore (s.position + used)
    ⟨.error (refusal.diagnostic stopped), stopped.position⟩

/-- The parse of a stream by a reader of tokens. -/
def parseTokens (read : Tokens → Reading Command) (s : TokenStream) : Parse :=
  (read s.ahead).parse s

/-- The line of the help listing for a command. -/
def helpLine (bot usage description : Text) : Text :=
  " * `@".toList ++ bot ++ [' '] ++ usage ++ "` - ".toList ++ description

/-- The help line of a grammar. -/
def Grammar.help (g : Grammar) (bot : Text) : Text := helpLine bot g.usage g.description

/-! ## Attempts -/

/-- What a grammar says about a command. -/
inductive Verdict where
  /-- The command is of another kind. -/
  | notMine
  /-- The command is well formed. -/
  | matched (command : Command)
  /-- The command is of this kind, and malformed. -/
  | rejected (error : Diagnostic)
  deriving DecidableEq, Repr

/-- The name of a verdict. -/
def Verdict.label : Verdict → Text
  | notMine => "not mine".toList
  | matched _ => "matched".toList
  | rejected _ => "rejected".toList

/-- How log lines show what a verdict carries. -/
def Verdict.debugForm : Verdict → Text
  | notMine => absent
  | matched command => command.debugForm
  | rejected error => error.debugForm

/-- What the grammar of a kind says about a command, and where its reading ended. -/
structure Outcome where
  grammar : Text
  verdict : Verdict
  position : Nat
  deriving DecidableEq, Repr

/-- Whether the grammar takes the command for its own. -/
def Outcome.claimed (o : Outcome) : Bool := o.verdict != .notMine

/-- What a parse says about a command at an offset. -/
def Parse.verdict (start : Nat) (p : Parse) : Verdict :=
  match p.result with
  | .ok none => .notMine
  | .ok (some command) => .matched command
  | .error error =>
    if error.stage = .lexing ∧ p.position = start then .notMine else .rejected error

/-- What a grammar says about the command at the position of a stream. -/
def Grammar.attempt (g : Grammar) (s : TokenStream) : Outcome :=
  let p := g.parse s
  ⟨g.kind, p.verdict s.position, p.position⟩

end MentionCommands
