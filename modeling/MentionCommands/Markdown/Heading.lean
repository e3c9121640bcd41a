/-
  Headings and thematic breaks.

  A heading is marked by one to six `#` in front, or by a line of `=` or `-` underneath.  A
  thematic break is a line of three or more stars, dashes or underscores, blanks between allowed.
-/
import MentionCommands.Markdown.Leaf

namespace MentionCommands

/-- Whether nothing but a space, a tab or the end follows a marker. -/
def endsMarker : Text → Bool
  | [] => true
  | c :: _ => isIndent c

/-- Whether a line is a heading of its own. -/
def isHeading (f : Frame) (l : Line) : Bool :=
  let level := Text.run '#' l.content
  !l.isCode f && decide (1 ≤ level ∧ level ≤ 6) && endsMarker (l.content.drop level)

/-- Whether a line underlines a heading. -/
def isUnderline : Text → Bool
  | [] => false
  | c :: rest => (c == '-' || c == '=') && (rest.drop (Text.run c rest)).all isIndent

/-- Whether a line is a thematic break. -/
def isBreak (f : Frame) (l : Line) : Bool :=
  match l.content with
  | [] => false
  | c :: rest =>
    !l.isCode f && (c == '*' || c == '-' || c == '_') &&
      rest.all (fun d => d == c || isIndent d) && decide (3 ≤ (c :: rest).count c)

/-- A heading of its own. -/
def heading? (f : Frame) (l : Line) : Option Block :=
  if isHeading f l then some (.prose l 0) else none

/-- A thematic break. -/
def thematicBreak? (f : Frame) (l : Line) : Option Block :=
  if isBreak f l then some (.silent 0) else none

end MentionCommands
