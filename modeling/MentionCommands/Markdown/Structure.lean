/-
  The block structure of a Markdown text.

  Lines are read from the top.  The first rule that fits a line makes a block of it and of some
  lines after it; quotes and list items are read in turn by the same rules, in a frame of their
  own, down to a fixed depth.

  * `blocks` reads the lines of a container;
  * `leaves` are the leaves of a text, in order;
  * `commonMark` is the block parser that they make.
-/
import MentionCommands.Markdown.Definition
import MentionCommands.Markdown.Interrupt

namespace MentionCommands

/-- The leaves in the lines of a container, and how many of its lines they and the blank lines
    between them cover. -/
structure Blocks where
  leaves : List Leaf
  used : Nat
  deriving DecidableEq, Repr

namespace Blocks

/-- No lines. -/
def nothing : Blocks := ⟨[], 0⟩

/-- The blocks after one more line that holds no leaf. -/
def afterLine (b : Blocks) : Blocks := { b with used := b.used + 1 }

/-- The blocks after a line that starts some leaves. -/
def afterLeaves (found : List Leaf) (b : Blocks) : Blocks := ⟨found ++ b.leaves, b.used + 1⟩

end Blocks

/-- How the lines inside a container are read. -/
abbrev Reader := Frame → List Line → Blocks

/-! ## Quotes -/

/-- The lines of a quote after its first one, without their markers: quoted lines, and lazy lines
    where the quoted text is not blank. -/
def quotedLines (f : Frame) (afterBlank : Bool) : List Line → List Line
  | [] => []
  | l :: rest =>
    if l.isBlank then []
    else if isQuoted l && !l.isOutside f then l.unquote :: quotedLines f l.unquote.isBlank rest
    else if afterBlank || interruptsQuote f l then []
    else { l with isLazy := true } :: quotedLines f false rest

/-- A quote. -/
def quote? (inner : Reader) (f : Frame) (l : Line) (rest : List Line) : Option Block :=
  if opensQuote f l then
    let first := l.unquote
    let b := inner { f with indent := 0 } (first :: quotedLines f first.isBlank rest)
    some ⟨b.leaves, b.used - 1⟩
  else none

/-! ## Lists -/

/-- The mark of the item that a line starts in a list; the first item may have any marker. -/
def itemMark? (f : Frame) (marker : Option ListMarker) (l : Line) : Option ItemMark :=
  if l.isOutside f || l.isCode f || interruptsList f l then none
  else (ItemMark.ofContent? l.content).filter fun m => marker.all (· == m.marker)

/-- The inside of an item.  An item that starts with two blank lines holds nothing else. -/
def item (inner : Reader) (f : Frame) (m : ItemMark) (l : Line) (rest : List Line) : Blocks :=
  if (m.inside l).isBlank && rest.head?.all Line.isBlank then
    ⟨[], min 2 (rest.length + 1)⟩
  else inner (m.frame f l) (m.inside l :: rest)

/-- The items of a list; the first `covered` lines belong to the item before. -/
def items (inner : Reader) (f : Frame) (marker : Option ListMarker) (covered : Nat) :
    List Line → Blocks
  | [] => .nothing
  | l :: rest =>
    match covered with
    | covered + 1 => (items inner f marker covered rest).afterLine
    | 0 =>
      match itemMark? f marker l with
      | none => .nothing
      | some m =>
        let b := item inner f m l rest
        (items inner f (some m.marker) (b.used - 1) rest).afterLeaves b.leaves

/-- A list. -/
def list? (inner : Reader) (f : Frame) (l : Line) (rest : List Line) : Option Block :=
  let b := items inner f none 0 (l :: rest)
  if b.used = 0 then none else some ⟨b.leaves, b.used - 1⟩

/-! ## Blocks -/

/-- The block that starts on a line. -/
def block (quote list : Reader) (f : Frame) (l : Line) (rest : List Line) : Block :=
  (table? f (interruptsQuote f) l rest
    <|> indentedCode? f l rest
    <|> fencedCode? f l rest
    <|> quote? quote f l rest
    <|> thematicBreak? f l
    <|> list? list f l rest
    <|> definition? f l (continuation false f rest)
    <|> htmlBlock? f l rest
    <|> heading? f l
    <|> underlinedHeading? f l rest).getD (paragraph f l rest)

/-- The blocks of a container, up to a line outside it; the first `covered` lines belong to the
    block before. -/
def blocksFrom (quote list : Reader) (f : Frame) (covered : Nat) : List Line → Blocks
  | [] => .nothing
  | l :: rest =>
    match covered with
    | covered + 1 => (blocksFrom quote list f covered rest).afterLine
    | 0 =>
      if l.isBlank then (blocksFrom quote list f 0 rest).afterLine
      else if l.isOutside f then .nothing
      else
        let b := block quote list f l rest
        (blocksFrom quote list f b.extra rest).afterLeaves b.leaves

/-- Beyond the depth at which containers may nest, all lines are passed over. -/
def tooDeep (f : Frame) : List Line → Blocks
  | [] => .nothing
  | l :: rest =>
    if l.isBlank then (tooDeep f rest).afterLine
    else if l.isOutside f then .nothing
    else ⟨[], rest.length + 1⟩

/-- The blocks of a container with room for so many levels of containers inside; a quote takes one
    level, a list two. -/
def blocks : Nat → Reader
  | 0 => tooDeep
  | 1 => fun f => blocksFrom tooDeep tooDeep f 0
  | room + 2 => fun f => blocksFrom (blocks (room + 1)) (blocks room) f 0

/-- How deep containers may nest. -/
def maxNesting : Nat := 20

/-- The leaves of a Markdown text. -/
def leaves (t : Text) : List Leaf := (blocks maxNesting .outermost (markdownLines t)).leaves

/-- The block parser of these rules, which reads every text. -/
def commonMark : BlockParser := fun t => some ((leaves t).flatMap Leaf.tokens)

end MentionCommands
