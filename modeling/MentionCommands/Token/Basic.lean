/-
  Tokens: the words, quotes, punctuation marks and line ends of a comment.

  * `Token.start` counts from wherever reading stood, so a token does not know its text;
    `Token.shift` moves the count;
  * `Token.value` is what a token says: a quote without its delimiters, any other token as it is
    written;
  * `Token.isEnd`: a dot, a semicolon or a line end closes a command.
-/
import MentionCommands.Text.Basic

namespace MentionCommands

/-- The kinds of token. -/
inductive TokenKind where
  /-- A run of characters without white space. -/
  | word
  /-- A text between double quotes, both included. -/
  | quote
  /-- A `.` that ends a word. -/
  | dot
  /-- A `,` that ends a word. -/
  | comma
  /-- A `;` that ends a word. -/
  | semicolon
  /-- A `!` that ends a word. -/
  | exclamation
  /-- A `?` that ends a word. -/
  | question
  /-- A `:` that ends a word. -/
  | colon
  /-- One or more line breaks, with the blanks between them. -/
  | endOfLine
  deriving DecidableEq, Repr

/-- The name of a kind. -/
def TokenKind.label : TokenKind → Text
  | word => "word".toList
  | quote => "quote".toList
  | dot => ['.']
  | comma => [',']
  | semicolon => [';']
  | exclamation => ['!']
  | question => ['?']
  | colon => [':']
  | endOfLine => "end of line".toList

/-- The kind of token that a punctuation mark makes; no other character makes one. -/
def punctuation? : Char → Option TokenKind
  | '.' => some .dot
  | ',' => some .comma
  | ';' => some .semicolon
  | '!' => some .exclamation
  | '?' => some .question
  | ':' => some .colon
  | _ => none

/-- Whether a character is a punctuation mark. -/
def isPunctuation (c : Char) : Bool := (punctuation? c).isSome

/-- A token: its kind, the offset at which it starts, and the characters that it covers. -/
structure Token where
  kind : TokenKind
  start : Nat
  source : Text
  deriving DecidableEq, Repr

namespace Token

/-- The offset after the last character of a token. -/
def stop (t : Token) : Nat := t.start + t.source.length

/-- The token with its offset counted from `n` characters further ahead. -/
def shift (n : Nat) (t : Token) : Token := { t with start := n + t.start }

theorem stop_shift (n : Nat) (t : Token) : (t.shift n).stop = n + t.stop := by
  simp [shift, stop, Nat.add_assoc]

/-- What a token says: the text between the delimiters of a quote, else its source. -/
def value (t : Token) : Text :=
  match t.kind with
  | .quote => (t.source.drop 1).dropLast
  | _ => t.source

/-- Whether a token is a word. -/
def isWord (t : Token) : Bool := t.kind == .word

/-- Whether a token is the given word. -/
def isTheWord (t : Token) (w : Text) : Bool := t.isWord && t.value == w

/-- Whether a token closes a command: a dot, a semicolon or a line end. -/
def isEnd (t : Token) : Bool :=
  match t.kind with
  | .dot | .semicolon | .endOfLine => true
  | _ => false

end Token

end MentionCommands
