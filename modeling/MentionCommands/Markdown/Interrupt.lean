/-
  Interruptions: the lines that end an open block without a blank line before them.

  * `interruptsProse` ends a paragraph, an underlined heading or a definition;
  * `interruptsQuote` ends the lazy lines of a quote and the rows of a table;
  * `interruptsList` keeps a line from being the next item of a list.
-/
import MentionCommands.Markdown.CodeBlock
import MentionCommands.Markdown.Container
import MentionCommands.Markdown.Html
import MentionCommands.Markdown.Table

namespace MentionCommands

/-- Whether a line opens a quote. -/
def opensQuote (f : Frame) (l : Line) : Bool := !l.isCode f && isQuoted l

/-- Whether a line is far to the left of its frame and yet far inside the list around it. -/
def isMisplaced (f : Frame) (l : Line) : Bool :=
  !l.isLazy && decide (l.indent < f.indent) && f.listIndent.any (· + 4 ≤ l.indent)

/-- Whether a line opens a list; inside a paragraph only some items do. -/
def opensList (inParagraph : Bool) (f : Frame) (l : Line) : Bool :=
  !l.isCode f && !isMisplaced f l &&
    (ItemMark.ofContent? l.content).any fun m => !inParagraph || l.isOutside f || m.interrupts

/-- Whether a line cannot be the next item of a list. -/
def interruptsList (f : Frame) (l : Line) : Bool :=
  (Fence.opening? f l).isSome || opensQuote f l || isBreak f l

/-- Whether a line ends the lazy lines of a quote, or a table. -/
def interruptsQuote (f : Frame) (l : Line) : Bool :=
  interruptsList f l || opensList false f l || (htmlOpening? f l).any HtmlKind.interrupts ||
    isHeading f l

/-- Whether a line, with the lines after it, ends prose. -/
def interruptsProse (inParagraph : Bool) (f : Frame) (l : Line) (rest : List Line) : Bool :=
  opensTable f l rest || interruptsList f l || opensList inParagraph f l ||
    (htmlOpening? f l).any HtmlKind.interrupts || isHeading f l

/-- The lines that continue prose: up to a blank one or an interruption, where lines that are
    indented like code and lazy lines interrupt nothing. -/
def continuation (inParagraph : Bool) (f : Frame) : List Line → List Line
  | [] => []
  | l :: rest =>
    if l.isBlank then []
    else if l.isCode f || l.isLazy || !interruptsProse inParagraph f l rest then
      l :: continuation inParagraph f rest
    else []

/-- How many lines stand before the line that underlines a heading. -/
def underline? (f : Frame) : List Line → Option Nat
  | [] => none
  | l :: rest =>
    if l.isBlank then none
    else if !l.isCode f && !l.isOutside f && isUnderline l.content then some 0
    else if l.isCode f || l.isLazy || !interruptsProse true f l rest then
      (underline? f rest).map (· + 1)
    else none

/-- A heading by the line under it. -/
def underlinedHeading? (f : Frame) (l : Line) (rest : List Line) : Option Block :=
  (underline? f rest).map fun n =>
    ⟨[.prose l.number (l.number + 1 + n)], n + 1⟩

/-- A paragraph. -/
def paragraph (f : Frame) (l : Line) (rest : List Line) : Block :=
  .prose l (continuation true f rest).length

end MentionCommands
