/-
  Diagnostics: what is told when a command cannot be read.

  A diagnostic is located at a position of the text and shows the ten characters before and after
  it.  An ambiguity names the grammars that claim the same command.

  * `Diagnostic.message`, `Ambiguity.message` are the sentences shown to the author of a comment;
  * `Diagnostic.debugForm` is the short form of log lines.
-/
import MentionCommands.Text.Quoted
import MentionCommands.Token.Lexeme

namespace MentionCommands

/-- Why a command cannot be read: a code for log lines, and the words shown to the author. -/
structure Reason where
  code : Text
  words : Text
  deriving DecidableEq, Repr

/-- The reason that a lexical fault gives. -/
def LexFault.reason : LexFault → Reason
  | unterminatedString =>
    ⟨"LexErrorKind.UNTERMINATED_STRING".toList, "unterminated string".toList⟩
  | quoteInWord => ⟨"LexErrorKind.QUOTE_IN_WORD".toList, "quote in word".toList⟩

/-- Where reading failed. -/
inductive Stage where
  /-- No token could be cut off. -/
  | lexing
  /-- A grammar knew its keyword and refused what follows. -/
  | grammar
  deriving DecidableEq, Repr

/-- The name of the errors of a stage. -/
def Stage.label : Stage → Text
  | lexing => "LexError".toList
  | grammar => "GrammarError".toList

/-- A failure at a position of a text. -/
structure Diagnostic where
  stage : Stage
  reason : Reason
  text : Text
  position : Nat
  deriving DecidableEq, Repr

namespace Diagnostic

/-- How many characters a message shows on either side of its position. -/
def window : Nat := 10

/-- The characters shown before the position. -/
def before (d : Diagnostic) : Text := d.text.slice (d.position - window) d.position

/-- The characters shown after the position. -/
def after (d : Diagnostic) : Text := d.text.slice d.position (d.position + window)

/-- The sentence shown to the author of a comment. -/
def message (d : Diagnostic) : Text :=
  "...'".toList ++ d.before ++ "' | error: ".toList ++ d.reason.words ++ " at >| '".toList ++
    d.after ++ "'...".toList

/-- The short form of log lines. -/
def debugForm (d : Diagnostic) : Text :=
  d.stage.label ++ "(kind=<".toList ++ d.reason.code ++ ": ".toList ++ d.reason.words.quoted ++
    ">, position=".toList ++ Text.ofNat d.position ++ ")".toList

/-- A lexical fault at a position of a text. -/
def ofLexFault (fault : LexFault) (text : Text) (position : Nat) : Diagnostic :=
  ⟨.lexing, fault.reason, text, position⟩

end Diagnostic

/-- Several grammars claim the command at a position. -/
structure Ambiguity where
  grammars : List Text
  text : Text
  position : Nat
  deriving DecidableEq, Repr

/-- The sentence that names the claiming grammars in order. -/
def Ambiguity.message (a : Ambiguity) : Text :=
  "Command at position ".toList ++ Text.ofNat a.position ++
    " was claimed by multiple grammars: ".toList ++ Text.join ", ".toList a.grammars ++ ['.']

/-- Whatever keeps a command from being dispatched. -/
inductive CommandError where
  /-- The command is malformed. -/
  | diagnostic (d : Diagnostic)
  /-- The command belongs to several grammars. -/
  | ambiguity (a : Ambiguity)
  deriving DecidableEq, Repr

/-- The sentence of an error. -/
def CommandError.message : CommandError → Text
  | diagnostic d => d.message
  | ambiguity a => a.message

end MentionCommands
