/-
  Lines of a Markdown text, as block rules see them.

  A line is its content, which starts at the first character that is neither a space nor a tab,
  and the column at which that content starts.  Tabs reach to the next multiple of four.  A line
  inside a quote or a list item has lost the markers of its containers; a line that only
  continues a paragraph of a quote, without a marker of its own, is lazy.

  * `Frame` is the container around a line; `Line.isOutside`, `Line.isCode` place a line in it;
  * `skipIndent` is the arithmetic of columns; `Line.ofRaw` reads a line of the text.
-/
import MentionCommands.Text.Lines

namespace MentionCommands

/-! ## Columns -/

/-- Skips spaces and tabs from a column on; tab stops are the multiples of four of the column
    moved by `shift`. -/
def skipIndent (shift column : Nat) : Text → Nat × Text
  | [] => (column, [])
  | c :: rest =>
    if c = ' ' then skipIndent shift (column + 1) rest
    else if c = '\t' then skipIndent shift (column + (4 - (column + shift) % 4)) rest
    else (column, c :: rest)

/-! ## Lines and frames -/

/-- A line of a Markdown text. -/
structure Line where
  /-- The number of the line in the whole text. -/
  number : Nat
  /-- The line from its first character that is neither space nor tab, without its break. -/
  content : Text
  /-- The column at which the content starts, from the edge of the innermost quote. -/
  indent : Nat
  /-- The width of the innermost quote marker, with what stands before it. -/
  quoteWidth : Nat
  /-- Whether the line continues a quoted paragraph without a quote marker. -/
  isLazy : Bool
  /-- Whether a line break ends the line. -/
  isBroken : Bool
  deriving DecidableEq, Repr

/-- The container that a line is read in. -/
structure Frame where
  /-- The column at which the content of the container starts. -/
  indent : Nat
  /-- The indent of the frame around the innermost list. -/
  listIndent : Option Nat
  deriving DecidableEq, Repr

/-- The whole text as a container. -/
def Frame.outermost : Frame := ⟨0, none⟩

namespace Line

/-- Whether a line has no content. -/
def isBlank (l : Line) : Bool := l.content.isEmpty

/-- Whether a line is not indented enough to stand in a frame. -/
def isOutside (f : Frame) (l : Line) : Bool := l.isLazy || decide (l.indent < f.indent)

/-- Whether a line is indented so far that it is code. -/
def isCode (f : Frame) (l : Line) : Bool := !l.isLazy && decide (f.indent + 4 ≤ l.indent)

/-- The line that a line of the text makes; the character NUL is replaced. -/
def ofRaw (number : Nat) (raw : Text) : Line :=
  let body := raw.withoutBreak.map fun c => if c = '\x00' then '\ufffd' else c
  let (indent, content) := skipIndent 0 0 body
  { number, content, indent, quoteWidth := 0, isLazy := false, isBroken := raw.isBroken }

/-- Whether a line exists for block rules: a last line of blanks without a break does not. -/
def isReal (l : Line) : Bool := l.isBroken || !l.isBlank

end Line

/-- The lines of a Markdown text. -/
def markdownLines (t : Text) : List Line :=
  (t.lines.mapIdx Line.ofRaw).filter Line.isReal

end MentionCommands
