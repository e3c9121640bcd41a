/-
  Quoted texts, as they are shown in log lines and debug forms.

  A text stands between single quotes, or between double quotes if it holds a single quote and
  no double one.  The delimiter and the backslash are escaped by a backslash; line feed, carriage
  return and tab have short escapes; any other character that is not printable is written by its
  code point in two, four or eight small hexadecimal digits.
-/
import MentionCommands.Text.Basic
import MentionCommands.Text.Printable

namespace MentionCommands.Text

/-- The small hexadecimal digits of a number, filled up with zeros to a width. -/
def hexadecimal (width n : Nat) : Text :=
  let digits := Nat.toDigits 16 n
  List.replicate (width - digits.length) '0' ++ digits

/-- The delimiter of a quoted text. -/
def delimiter (t : Text) : Char := if t.contains '\'' && !t.contains '"' then '"' else '\''

/-- A character as it is written between two delimiters. -/
def escape (quote c : Char) : Text :=
  if c = quote ∨ c = '\\' then ['\\', c]
  else if c = '\n' then ['\\', 'n']
  else if c = '\r' then ['\\', 'r']
  else if c = '\t' then ['\\', 't']
  else if isPrintable c then [c]
  else if c.toNat < 0x100 then ['\\', 'x'] ++ hexadecimal 2 c.toNat
  else if c.toNat < 0x10000 then ['\\', 'u'] ++ hexadecimal 4 c.toNat
  else ['\\', 'U'] ++ hexadecimal 8 c.toNat

/-- The quoted form of a text. -/
def quoted (t : Text) : Text :=
  let quote := delimiter t
  [quote] ++ t.flatMap (escape quote) ++ [quote]

end MentionCommands.Text
