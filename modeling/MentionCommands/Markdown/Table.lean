/-
  Tables.

  A table is a header row over a row of dashes, with one group of dashes for each cell of the
  header.  Cells are parted by bars; a bar behind a backslash parts nothing.

  * `cells` are the cells of a row, `columns?` the number of columns that a row of dashes makes;
  * `opensTable`: two lines are the head of a table.
-/
import MentionCommands.Markdown.Leaf

namespace MentionCommands

/-- The parts of a row between its bars; `escaped` says whether a backslash stands in front. -/
def splitRow (escaped : Bool) : Text → List Text
  | [] => [[]]
  | c :: rest =>
    if c = '|' ∧ escaped = false then [] :: splitRow false rest
    else match splitRow (c == '\\') rest with
      | [] => [[c]]
      | part :: parts => (c :: part) :: parts

/-- The list without an empty first text. -/
def dropEmptyFirst : List Text → List Text
  | [] :: parts => parts
  | parts => parts

/-- The cells of a row; a bar at either end of the row adds none. -/
def cells (row : Text) : List Text :=
  let parts := dropEmptyFirst (splitRow false (row.trim isTrimmed))
  (dropEmptyFirst parts.reverse).reverse

/-- Whether a cell is a group of dashes, with or without colons at its ends. -/
def isDashes (cell : Text) : Bool :=
  let body := if cell.head? == some ':' then cell.tail else cell
  let behind := body.drop (Text.run '-' body)
  decide (1 ≤ Text.run '-' body) && (behind == [] || behind == [':'])

/-- Whether a character may stand in a row of dashes. -/
def isDelimiterChar (c : Char) : Bool := c == '|' || c == '-' || c == ':' || isIndent c

/-- Whether a text starts like a row of dashes and not like an item of a list. -/
def startsDelimiter : Text → Bool
  | c :: d :: _ => !isIndent c && !(c == '-' && isIndent d)
  | _ => false

/-- The number of columns of a row of dashes: a blank may stand at either end, but not between two
    groups. -/
def columns? (row : Text) : Option Nat :=
  if startsDelimiter row && row.all isDelimiterChar then
    let parts := (row.splitOn '|').map (Text.trim isTrimmed)
    let parts := dropEmptyFirst parts
    let groups := (dropEmptyFirst parts.reverse).reverse
    if groups.all isDashes then some groups.length else none
  else none

/-- Whether a line and the lines after it start with the head of a table. -/
def opensTable (f : Frame) (l : Line) : List Line → Bool
  | [] => false
  | dashes :: _ =>
    !dashes.isOutside f && !dashes.isCode f && !l.isCode f &&
      l.content.contains '|' && decide (0 < (cells l.content).length) &&
      columns? dashes.content == some (cells l.content).length

/-- The rows under the head of a table; `ends` tells the lines that end it. -/
def tableRows (f : Frame) (ends : Line → Bool) : List Line → List Line
  | [] => []
  | l :: rest =>
    if l.isOutside f || ends l || l.content.all isTrimmed || l.isCode f then []
    else l :: tableRows f ends rest

/-- A table. -/
def table? (f : Frame) (ends : Line → Bool) (l : Line) (rest : List Line) : Option Block :=
  if opensTable f l rest then
    let rows := tableRows f ends rest.tail
    let columns := (cells l.content).length
    some ⟨(l :: rows).map fun row => .row row.number columns, 1 + rows.length⟩
  else none

end MentionCommands
