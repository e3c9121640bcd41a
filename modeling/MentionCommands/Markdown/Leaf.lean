/-
  Leaves: the blocks of a Markdown text that hold text themselves.

  * `Leaf` is a block of code, a block of prose, or a row of a table, by its lines;
    `Leaf.tokens` are the tokens that stand for it;
  * `Block` is what a block rule makes of a line and the lines after it.
-/
import MentionCommands.Code.Index
import MentionCommands.Markdown.Line

namespace MentionCommands

/-- A block of a Markdown text that holds text itself, with the numbers of its lines. -/
inductive Leaf where
  /-- Code between fences, from line `first` up to line `last`. -/
  | fenced (first last : Nat)
  /-- Indented code, from line `first` up to line `last`. -/
  | indented (first last : Nat)
  /-- Text that may hold inline code, from line `first` up to line `last`. -/
  | prose (first last : Nat)
  /-- A row of a table, with so many columns. -/
  | row (number columns : Nat)
  deriving DecidableEq, Repr

/-- The tokens of a leaf; a row has one for each of its cells. -/
def Leaf.tokens : Leaf → List BlockToken
  | fenced first last => [⟨.fence, some (first, last)⟩]
  | indented first last => [⟨.codeBlock, some (first, last)⟩]
  | prose first last => [⟨.inline, some (first, last)⟩]
  | row number columns => List.replicate columns ⟨.inline, some (number, number + 1)⟩

/-- The leaves of a block, and how many lines it covers after its first one. -/
structure Block where
  leaves : List Leaf
  extra : Nat
  deriving DecidableEq, Repr

namespace Block

/-- A block that is code between fences. -/
def fenced (l : Line) (extra : Nat) : Block := ⟨[.fenced l.number (l.number + 1 + extra)], extra⟩

/-- A block that is indented code. -/
def indented (l : Line) (extra : Nat) : Block :=
  ⟨[.indented l.number (l.number + 1 + extra)], extra⟩

/-- A block that is one leaf of prose. -/
def prose (l : Line) (extra : Nat) : Block := ⟨[.prose l.number (l.number + 1 + extra)], extra⟩

/-- A block that holds no text. -/
def silent (extra : Nat) : Block := ⟨[], extra⟩

end Block

end MentionCommands
