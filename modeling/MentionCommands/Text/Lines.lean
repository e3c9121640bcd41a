/-
  Lines of a text, each with the line break that ends it.

  A line feed, a carriage return and the pair of both end a line; the last line may have no break,
  and is then not empty.

  * `flatten_lines`: the lines are the whole text;
  * `lineOffset` is where a line starts, `breaks` the number of breaks.
-/
import MentionCommands.Text.Basic
import MentionCommands.Text.Space

namespace MentionCommands.Text

/-- The lines of a text, breaks included. -/
def lines : Text → List Text
  | [] => []
  | c :: rest =>
    if c = '\n' then [c] :: lines rest
    else if c = '\r' then
      match rest with
      | [] => [[c]]
      | d :: rest' => if d = '\n' then [c, d] :: lines rest' else [c] :: lines (d :: rest')
    else
      match lines rest with
      | [] => [[c]]
      | line :: others => (c :: line) :: others

/-- **The lines of a text are all of it.** -/
theorem flatten_lines (t : Text) : t.lines.flatten = t := by
  fun_induction lines t <;> simp_all

/-- Where line `n` starts: the length of all lines before it. -/
def lineOffset (t : Text) (n : Nat) : Nat := (t.lines.take n).flatten.length

/-- A line without its break. -/
def withoutBreak (line : Text) : Text := line.takeWhile (!isLineBreak ·)

/-- Whether a line ends in a break. -/
def isBroken (line : Text) : Bool := line.any isLineBreak

/-- How many line breaks a text has. -/
def breaks (t : Text) : Nat := (lines t).countP isBroken

end MentionCommands.Text
