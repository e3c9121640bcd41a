/-
  White space.

  Three classes differ in a few characters: `isSpace` parts the words of a comment, `isTrimmed`
  is cut off at the ends of Markdown cells, labels and destinations, and `isIndent` (a space or
  a tab) is the only white space that counts for the layout of Markdown lines.
-/
import MentionCommands.Text.CharClass

namespace MentionCommands

/-- White space: blanks of every width, tabs, line and paragraph ends, the four separators. -/
def spaces : CharClass :=
  ⟨[(0x9, 0xD), (0x1C, 0x20), (0x85, 0x85), (0xA0, 0xA0), (0x1680, 0x1680), (0x2000, 0x200A),
    (0x2028, 0x2029), (0x202F, 0x202F), (0x205F, 0x205F), (0x3000, 0x3000)]⟩

/-- Whether a character is white space. -/
def isSpace (c : Char) : Bool := spaces.contains c

/-- Whether a character ends a line of text. -/
def isLineBreak (c : Char) : Bool := c == '\r' || c == '\n'

/-- Whether a character is white space that stays on its line. -/
def isBlank (c : Char) : Bool := isSpace c && !isLineBreak c

/-- The white space cut off at both ends of a Markdown cell, label or destination. -/
def trimmed : CharClass :=
  ⟨[(0x9, 0xD), (0x20, 0x20), (0xA0, 0xA0), (0x1680, 0x1680), (0x2000, 0x200A),
    (0x2028, 0x2029), (0x202F, 0x202F), (0x205F, 0x205F), (0x3000, 0x3000)]⟩

/-- Whether a character is cut off at the ends of a Markdown cell, label or destination. -/
def isTrimmed (c : Char) : Bool := trimmed.contains c

/-- Whether a character indents a Markdown line. -/
def isIndent (c : Char) : Bool := c == ' ' || c == '\t'

theorem isSpace_of_isLineBreak {c : Char} (h : isLineBreak c = true) : isSpace c = true := by
  simp only [isLineBreak, Bool.or_eq_true, beq_iff_eq] at h
  rcases h with rfl | rfl <;> decide

end MentionCommands
