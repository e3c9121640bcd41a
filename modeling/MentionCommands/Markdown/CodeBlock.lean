/-
  Blocks of code: fenced and indented.

  A fence is a run of three or more backticks or tildes.  The block reaches through the first line
  that closes it, a run of the same character at least as long with nothing behind it, or else as
  far as its container.  An indented block holds the lines that are indented by four columns, and
  the blank lines between them.
-/
import MentionCommands.Code.Inline
import MentionCommands.Markdown.Leaf

namespace MentionCommands

/-! ## Fences -/

/-- A run that opens a fenced block. -/
structure Fence where
  mark : Char
  length : Nat
  deriving DecidableEq, Repr

/-- The fence at the front of a line; behind a fence of backticks there is no other backtick. -/
def Fence.ofContent? : Text → Option Fence
  | [] => none
  | c :: rest =>
    let length := Text.run c (c :: rest)
    if length < 3 then none
    else if c = '~' then some ⟨c, length⟩
    else if c = backtick ∧ backtick ∉ (c :: rest).drop length then some ⟨c, length⟩
    else none

/-- The fence that a line opens in a frame. -/
def Fence.opening? (f : Frame) (l : Line) : Option Fence :=
  if l.isCode f then none else Fence.ofContent? l.content

/-- Whether a line closes a fenced block. -/
def Fence.isClosedBy (fence : Fence) (f : Frame) (l : Line) : Bool :=
  let length := Text.run fence.mark l.content
  !l.isCode f && decide (fence.length ≤ length) && (l.content.drop length).all isIndent

/-- How many lines a fenced block covers after its opening line. -/
def Fence.extent (fence : Fence) (f : Frame) : List Line → Nat
  | [] => 0
  | l :: rest =>
    if l.isBlank then if l.isBroken then 1 + fence.extent f rest else 0
    else if l.isOutside f then 0
    else if fence.isClosedBy f l then 1
    else 1 + fence.extent f rest

/-- A fenced block. -/
def fencedCode? (f : Frame) (l : Line) (rest : List Line) : Option Block :=
  (Fence.opening? f l).map fun fence => .fenced l (fence.extent f rest)

/-! ## Indented code -/

/-- How many lines an indented block covers: through the last indented line before any other. -/
def indentedExtent (f : Frame) : List Line → Nat
  | [] => 0
  | l :: rest =>
    if l.isBlank then
      match indentedExtent f rest with
      | 0 => 0
      | n + 1 => n + 2
    else if l.isCode f then 1 + indentedExtent f rest
    else 0

/-- An indented block. -/
def indentedCode? (f : Frame) (l : Line) (rest : List Line) : Option Block :=
  if l.isCode f then some (.indented l (indentedExtent f rest)) else none

end MentionCommands
