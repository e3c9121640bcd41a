/-
  Container markers: what opens a quote and what opens an item of a list.

  * `Line.unquote` is a quoted line without its marker;
  * `ListMarker` is a bullet or a number; `ItemMark` is a marker found at the front of a line, and
    `ItemMark.frame`, `ItemMark.inside` are the frame and the first line of its item.
-/
import MentionCommands.Markdown.Heading

namespace MentionCommands

/-! ## Quotes -/

/-- Whether a line starts with a quote marker. -/
def isQuoted (l : Line) : Bool := l.content.head? == some '>'

/-- A quoted line without its marker, and without the space behind that; of a tab, the columns
    beyond the first stay. -/
def Line.unquote (l : Line) : Line :=
  let column := l.indent + 1
  let body := l.content.tail
  let inner (shift column width : Nat) (t : Text) : Line :=
    let (stop, content) := skipIndent shift column t
    { l with content, indent := stop - column, quoteWidth := width }
  match body with
  | [] => inner l.quoteWidth column column body
  | c :: rest =>
    if c = ' ' ∨ (c = '\t' ∧ (l.quoteWidth + column) % 4 = 3) then
      inner l.quoteWidth (column + 1) (column + 1) rest
    else if c = '\t' then inner (l.quoteWidth + 1) column (column + 1) body
    else inner l.quoteWidth column column body

/-! ## List items -/

/-- What tells the items of one list from those of another. -/
inductive ListMarker where
  /-- A bullet: a dash, a plus or a star. -/
  | bullet (c : Char)
  /-- A number, by the dot or the parenthesis behind it. -/
  | numbered (delimiter : Char)
  deriving DecidableEq, Repr

/-- A list marker at the front of a line. -/
structure ItemMark where
  marker : ListMarker
  /-- The number of a numbered item. -/
  number : Option Nat
  /-- How many characters the marker has. -/
  width : Nat
  /-- What follows the marker. -/
  rest : Text
  deriving DecidableEq, Repr

namespace ItemMark

/-- The bullet at the front of a text. -/
def bullet? : Text → Option ItemMark
  | [] => none
  | c :: rest =>
    if (c == '-' || c == '+' || c == '*') && endsMarker rest then some ⟨.bullet c, none, 1, rest⟩
    else none

/-- The number of one to nine digits at the front of a text. -/
def numbered? (t : Text) : Option ItemMark :=
  let digits := t.takeWhile Char.isDigit
  if 1 ≤ digits.length ∧ digits.length ≤ 9 then
    match t.drop digits.length with
    | [] => none
    | c :: rest =>
      if (c == '.' || c == ')') && endsMarker rest then
        let value := digits.foldl (fun n d => 10 * n + (d.toNat - '0'.toNat)) 0
        some ⟨.numbered c, some value, digits.length + 1, rest⟩
      else none
  else none

/-- The list marker at the front of a text. -/
def ofContent? (t : Text) : Option ItemMark := numbered? t <|> bullet? t

/-- Whether an item may follow a paragraph without a blank line: it must have text of its own, and
    a numbered one must start at one. -/
def interrupts (m : ItemMark) : Bool := m.number.all (· == 1) && !m.rest.all isIndent

/-- The column at which the marker of an item on a line ends. -/
def edge (m : ItemMark) (l : Line) : Nat := l.indent + m.width

/-- The first line of an item, without its marker. -/
def inside (m : ItemMark) (l : Line) : Line :=
  let (indent, content) := skipIndent l.quoteWidth (m.edge l) m.rest
  { l with content, indent }

/-- The frame of an item: its content starts where its first line does, or one column behind the
    marker if that line is blank or is code. -/
def frame (m : ItemMark) (f : Frame) (l : Line) : Frame :=
  let gap := (m.inside l).indent - m.edge l
  let gap := if (m.inside l).isBlank ∨ 4 < gap then 1 else gap
  ⟨m.edge l + gap, some f.indent⟩

end ItemMark

end MentionCommands
