/-
  Token streams: reading positions in a text, from which tokens are cut off one at a time.

  A stream is a text with two offsets, so saving a position, going back to it and copying a stream
  cost nothing.  A fault leaves a stream where it is.

  * `Tokens` are all tokens ahead of a position at once, up to the end of the text or the first
    fault; each of them counts its offset from the end of the token before, so that equal texts
    have equal tokens wherever they stand;
  * `TokenStream.next`, `peek` and `eat` read one token; `TokenStream.tokens` are those ahead.
-/
import MentionCommands.Diagnostic

namespace MentionCommands

/-! ## All tokens ahead of a position -/

/-- The tokens ahead of a position. -/
inductive Tokens where
  /-- No token is left. -/
  | finish
  /-- The next token cannot be cut off, because of what stands `offset` characters further on. -/
  | fault (reason : LexFault) (offset : Nat)
  /-- The next token, and the tokens ahead of its end. -/
  | next (token : Token) (rest : Tokens)
  deriving DecidableEq, Repr

namespace Tokens

/-- The tokens of a text, of which `skip` characters belong to a token already cut off. -/
def scan (skip : Nat) : Text → Tokens
  | [] => finish
  | c :: rest =>
    match skip with
    | skip + 1 => scan skip rest
    | 0 =>
      match Lexeme.ofText (c :: rest) with
      | .finished => finish
      | .fault reason offset => fault reason offset
      | .token t => next t (scan (t.stop - 1) rest)

/-- The tokens of a text. -/
def ofText (t : Text) : Tokens := scan 0 t

theorem scan_eq_ofText (skip : Nat) (t : Text) : scan skip t = ofText (t.drop skip) := by
  induction t generalizing skip with
  | nil => cases skip <;> rfl
  | cons c rest ih =>
    cases skip with
    | zero => rfl
    | succ skip => exact ih skip

/-- The tokens of a text are its first token and the tokens behind that one. -/
theorem ofText_of_token {t : Text} {k : Token} (h : Lexeme.ofText t = .token k) :
    ofText t = next k (ofText (t.drop k.stop)) := by
  obtain ⟨gap, rest, ht, hlen, _, hne⟩ := Lexeme.eq_append_of_ofText h
  have hpos : 0 < k.stop := by
    have := List.length_pos_iff.2 hne
    simp only [Token.stop]
    omega
  cases t with
  | nil => cases h
  | cons c t =>
    obtain ⟨n, hn⟩ := Nat.exists_eq_succ_of_ne_zero (Nat.pos_iff_ne_zero.1 hpos)
    have hstep : ofText (c :: t) = next k (scan (k.stop - 1) t) := by rw [ofText, scan, h]
    rw [hstep, scan_eq_ofText, hn]
    rfl

/-- The tokens themselves, if the first of them is read at an offset. -/
def toList (offset : Nat) : Tokens → List Token
  | finish | fault _ _ => []
  | next t rest => t.shift offset :: rest.toList (offset + t.stop)

/-- How many characters the tokens cover, with the blanks in front of each. -/
def extent : Tokens → Nat
  | finish | fault _ _ => 0
  | next t rest => t.stop + rest.extent

/-- What keeps the tokens from reaching the end of the text, and how far ahead. -/
def fault? : Tokens → Option (LexFault × Nat)
  | finish => none
  | fault reason offset => some (reason, offset)
  | next t rest => rest.fault?.map fun (reason, offset) => (reason, t.stop + offset)

/-- The first token. -/
def first? : Tokens → Option Token
  | next t _ => some t
  | _ => none

end Tokens

/-! ## Streams -/

/-- A reading position in a text, and where reading started. -/
structure TokenStream where
  text : Text
  start : Nat
  position : Nat
  deriving DecidableEq, Repr

namespace TokenStream

/-- The stream that starts at an offset of a text. -/
def ofText (text : Text) (offset : Nat) : TokenStream := ⟨text, offset, offset⟩

/-- Everything ahead of the position. -/
def remaining (s : TokenStream) : Text := s.text.drop s.position

/-- Everything read since the start. -/
def consumed (s : TokenStream) : Text := s.text.slice s.start s.position

/-- The stream at a saved position. -/
def restore (s : TokenStream) (position : Nat) : TokenStream := { s with position }

/-- The failure of a grammar at the position. -/
def failure (s : TokenStream) (reason : Reason) : Diagnostic :=
  ⟨.grammar, reason, s.text, s.position⟩

/-- The lexical fault that stands `offset` characters ahead of the position. -/
def lexicalFailure (s : TokenStream) (reason : LexFault) (offset : Nat) : Diagnostic :=
  .ofLexFault reason s.text (s.position + offset)

/-- The next token and the stream after it, or none at the end of the text. -/
def next (s : TokenStream) : Except Diagnostic (Option (Token × TokenStream)) :=
  match Lexeme.ofText s.remaining with
  | .finished => .ok none
  | .fault reason offset => .error (s.lexicalFailure reason offset)
  | .token t => .ok (some (t.shift s.position, s.restore (s.position + t.stop)))

/-- The next token. -/
def peek (s : TokenStream) : Except Diagnostic (Option Token) :=
  s.next.map fun step => step.map Prod.fst

/-- Whether a token has a kind, and a value if one is given. -/
def accepts (kind : TokenKind) (value : Option Text) (t : Token) : Bool :=
  t.kind == kind && value.all (t.value == ·)

/-- The stream after the next token, if that has the kind, and the value if one is given. -/
def eat (s : TokenStream) (kind : TokenKind) (value : Option Text) :
    Except Diagnostic (Option TokenStream) :=
  s.next.map fun step => (step.filter (accepts kind value ·.1)).map Prod.snd

/-- The tokens ahead of the position, each counted from the one before. -/
def ahead (s : TokenStream) : Tokens := Tokens.ofText s.remaining

/-- The tokens ahead of the position. -/
def tokens (s : TokenStream) : List Token := s.ahead.toList s.position

/-- The stream after the last token that can be cut off. -/
def exhaust (s : TokenStream) : TokenStream := s.restore (s.position + s.ahead.extent)

/-- What keeps the tokens from reaching the end of the text. -/
def fault? (s : TokenStream) : Option Diagnostic :=
  s.ahead.fault?.map fun (reason, offset) => s.lexicalFailure reason offset

/-- The short form of log lines: the position and the next twenty characters. -/
def debugForm (s : TokenStream) : Text :=
  "Tokenizer(position=".toList ++ Text.ofNat s.position ++ ", rest=".toList ++
    (s.text.slice s.position (s.position + 20)).quoted ++ [')']

end TokenStream

end MentionCommands
