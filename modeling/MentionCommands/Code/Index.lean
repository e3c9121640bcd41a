/-
  The code of a Markdown text: blocks of code and inline code, as ranges of offsets.

  Which lines of a text make which block, a block parser tells.  The parser is a parameter here: it
  gives tokens, some of which have line numbers, or it fails.

  * `BlockToken` and `BlockParser`: what is known of the block structure of a text;
  * `lineRange` are the offsets of lines, `BlockToken.spans` the code in the lines of a token;
  * `Span.merge` puts spans in order, each of them once;
  * `CodeIndex.ofTokens` is the code of a text by its tokens, `CodeIndex.ofText?` by a parser;
  * `CodeIndex.overlapping?` is the first span that meets a range.
-/
import MentionCommands.Code.Inline
import MentionCommands.Text.Lines
import MentionCommands.Text.Quoted

namespace MentionCommands

/-! ## Block structure -/

/-- What a token of the block structure stands for. -/
inductive BlockKind where
  /-- Code between fences. -/
  | fence
  /-- Indented code. -/
  | codeBlock
  /-- Text that may hold inline code. -/
  | inline
  /-- Anything else. -/
  | other (name : Text)
  deriving DecidableEq, Repr

/-- A token of the block structure of a text. -/
structure BlockToken where
  kind : BlockKind
  /-- The number of its first line and that of the line behind its last one. -/
  lines : Option (Nat × Nat)
  deriving DecidableEq, Repr

/-- A block parser: the tokens of a text, or none if it fails on the text. -/
abbrev BlockParser := Text → Option (List BlockToken)

/-! ## Ranges -/

/-- The range of the lines from `first` up to `last`; no line starts behind the one that the last
    break starts. -/
def lineRange (t : Text) (first last : Nat) : Span :=
  ⟨t.lineOffset (min first t.breaks), t.lineOffset last⟩

/-- The characters of a range. -/
def Span.of (s : Span) (t : Text) : Text := t.slice s.start s.stop

/-- The inline code in a range of a text. -/
def inlineCodeOf (t : Text) (range : Span) : List Span := inlineCode range.start (range.of t)

/-- The code in the lines of a token. -/
def BlockToken.spans (t : Text) (token : BlockToken) : List Span :=
  match token.kind, token.lines with
  | .fence, some (first, last) | .codeBlock, some (first, last) => [lineRange t first last]
  | .inline, some (first, last) => inlineCodeOf t (lineRange t first last)
  | _, _ => []

/-! ## Spans in order -/

namespace Span

/-- Spans are ordered by their starts, and those of one start by their ends. -/
def Precedes (a b : Span) : Prop := a.start < b.start ∨ a.start = b.start ∧ a.stop < b.stop

instance (a b : Span) : Decidable (a.Precedes b) := inferInstanceAs (Decidable (_ ∨ _))

/-- The spans with one more, which is put in its place, unless it is there. -/
def insert (s : Span) : List Span → List Span
  | [] => [s]
  | s' :: spans =>
    if s.Precedes s' then s :: s' :: spans
    else if s = s' then s' :: spans
    else s' :: insert s spans

/-- The spans of a list in order, each of them once. -/
def merge : List Span → List Span
  | [] => []
  | s :: spans => insert s (merge spans)

end Span

/-! ## The index -/

/-- A Markdown text with its code. -/
structure CodeIndex where
  text : Text
  spans : List Span
  deriving DecidableEq, Repr

namespace CodeIndex

/-- The code of a text with these tokens. -/
def ofTokens (t : Text) (tokens : List BlockToken) : CodeIndex :=
  ⟨t, Span.merge (tokens.flatMap (·.spans t))⟩

/-- The code of a text that a parser reads. -/
def ofText? (parse : BlockParser) (t : Text) : Option CodeIndex := (parse t).map (ofTokens t)

/-- The first span that shares a position with the range from `start` up to `stop`; spans from
    `stop` on are not looked at. -/
def overlapping? (index : CodeIndex) (start stop : Nat) : Option Span :=
  (index.spans.takeWhile (·.start < stop)).find? (start < ·.stop)

/-- The spans, as log lines show them. -/
def spansForm (index : CodeIndex) : Text :=
  let pair (s : Span) : Text :=
    ['('] ++ Text.ofNat s.start ++ ", ".toList ++ Text.ofNat s.stop ++ [')']
  ['['] ++ Text.join ", ".toList (index.spans.map pair) ++ [']']

/-- The short form of log lines. -/
def debugForm (index : CodeIndex) : Text := "CodeBlocks(spans=".toList ++ index.spansForm ++ [')']

end CodeIndex

end MentionCommands
