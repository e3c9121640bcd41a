/-
  Definitions of link references: `[label]: destination "title"`.

  A definition shows nothing.  It may go on over several lines; the reader sees the text of the
  first line and of all lines that would continue a paragraph, so that how far a definition
  reaches is how many line feeds it uses.

  * `Definition.after?` is what follows a definition at the front of a text;
  * `definition?` is the block of a definition.
-/
import MentionCommands.Text.Space
import MentionCommands.Markdown.Leaf

namespace MentionCommands

namespace Definition

/-! ## Labels -/

/-- The label up to its closing bracket, and what follows the bracket. -/
def label? : Text → Option (Text × Text)
  | [] => none
  | c :: rest =>
    if c = '[' then none
    else if c = ']' then some ([], rest)
    else if c = '\\' then
      match rest with
      | [] => none
      | d :: rest => (label? rest).map fun (label, behind) => (c :: d :: label, behind)
    else (label? rest).map fun (label, behind) => (c :: label, behind)

/-! ## Destinations -/

/-- Where a definition leads, and what follows. -/
structure Destination where
  source : Text
  rest : Text
  /-- Whether a backslash takes the end of the line along, so that no title can follow. -/
  isSealed : Bool
  deriving DecidableEq, Repr

/-- A destination with one more piece in front. -/
def Destination.prepend (front : Text) (d : Destination) : Destination :=
  { d with source := front ++ d.source }

/-- A destination in angle brackets, after the opening one. -/
def angled? : Text → Option Destination
  | [] => none
  | c :: rest =>
    if c = '\n' ∨ c = '<' then none
    else if c = '>' then some ⟨[], rest, false⟩
    else if c = '\\' then
      match rest with
      | [] => none
      | d :: rest => if d = '\n' then none else (angled? rest).map (.prepend [c, d])
    else (angled? rest).map (.prepend [c])

/-- Whether a character ends a bare destination. -/
def isControl (c : Char) : Bool := decide (c.toNat ≤ 0x20) || c == '\x7f'

/-- How deep parentheses nest in a bare destination. -/
def maxDepth : Nat := 32

/-- A bare destination, inside `depth` parentheses. -/
def bare? (depth : Nat) : Text → Option Destination
  | [] => if depth = 0 then some ⟨[], [], false⟩ else none
  | c :: rest =>
    let here := if depth = 0 then some ⟨[], c :: rest, false⟩ else none
    if isControl c then here
    else if c = '\\' then
      match rest with
      | [] => if depth = 0 then some ⟨[c], [], false⟩ else none
      | d :: behind =>
        if d = ' ' then here
        else if d = '\n' then if depth = 0 then some ⟨[c, d], rest, true⟩ else none
        else (bare? depth behind).map (.prepend [c, d])
    else if c = '(' then
      if depth < maxDepth then (bare? (depth + 1) rest).map (.prepend [c]) else none
    else if c = ')' then
      match depth with
      | 0 => here
      | depth + 1 => (bare? depth rest).map (.prepend [c])
    else (bare? depth rest).map (.prepend [c])

/-- A destination, in angle brackets or bare; a bare one is not empty. -/
def destination? : Text → Option Destination
  | [] => none
  | c :: rest =>
    if c = '<' then angled? rest
    else (bare? 0 (c :: rest)).filter fun d => !d.source.isEmpty

/-! ## Refused destinations -/

/-- Whether a backslash in front of a character is dropped. -/
def isAsciiPunctuation (c : Char) : Bool :=
  decide (0x21 ≤ c.toNat ∧ c.toNat < 0x7f) && !c.isAlphanum

/-- The value of a digit. -/
def digitValue (c : Char) : Nat :=
  if c.isDigit then c.toNat - '0'.toNat else c.toLower.toNat - 'a'.toNat + 10

/-- The number that digits of a base write. -/
def number (base : Nat) (digits : Text) : Nat := digits.foldl (fun n d => base * n + digitValue d) 0

/-- Whether a digit is hexadecimal. -/
def isHexadecimal (c : Char) : Bool := c.isDigit || ('a' ≤ c.toLower && c.toLower ≤ 'f')

/-- Whether a code point stands for a character of a text. -/
def isCharacterCode (n : Nat) : Bool :=
  !(decide (0xD800 ≤ n ∧ n ≤ 0xDFFF) || decide (0xFDD0 ≤ n ∧ n ≤ 0xFDEF) ||
    n % 0x10000 == 0xFFFF || n % 0x10000 == 0xFFFE || decide (n ≤ 0x08) || n == 0x0B ||
    decide (0x0E ≤ n ∧ n ≤ 0x1F) || decide (0x7F ≤ n ∧ n ≤ 0x9F) || decide (0x10FFFF < n))

/-- The character that a numeric entity names, by the digits after its `#`. -/
def numericEntity? (t : Text) : Option Char :=
  let read (base : Nat) (valid : Char → Bool) (digits : Text) : Option Char :=
    let n := number base digits
    if 1 ≤ digits.length ∧ digits.length ≤ 8 ∧ digits.all valid ∧ isCharacterCode n then
      some (Char.ofNat n)
    else none
  match t with
  | [] => none
  | c :: digits => if c.toLower = 'x' then read 16 isHexadecimal digits else read 10 Char.isDigit t

/-- The named entities that decide whether a destination is refused: the marks of a protocol and of
    the data behind it, and the white space that may stand in front. -/
def namedEntities : List (Text × Text) :=
  [("colon", ":"), ("semi", ";"), ("sol", "/"), ("Tab", "\t"), ("NewLine", "\n"),
    ("nbsp", "\u00a0"), ("NonBreakingSpace", "\u00a0"), ("ensp", "\u2002"), ("emsp", "\u2003"),
    ("emsp13", "\u2004"), ("emsp14", "\u2005"), ("numsp", "\u2007"), ("puncsp", "\u2008"),
    ("thinsp", "\u2009"), ("ThinSpace", "\u2009"), ("hairsp", "\u200a"),
    ("VeryThinSpace", "\u200a"), ("MediumSpace", "\u205f"), ("ThickSpace", "\u205f\u200a")].map
    fun (name, characters) => (name.toList, characters.toList)

/-- The characters that an entity names, by what stands between its `&` and its `;`. -/
def entity? : Text → Option Text
  | [] => none
  | c :: rest =>
    if c = '#' then (numericEntity? rest).map fun d => [d] else namedEntities.lookup (c :: rest)

/-- A destination with its escapes and entities replaced; `skip` characters are already read. -/
def decode (skip : Nat) : Text → Text
  | [] => []
  | c :: rest =>
    match skip with
    | skip + 1 => decode skip rest
    | 0 =>
      match rest with
      | [] => [c]
      | d :: _ =>
        if c = '\\' ∧ isAsciiPunctuation d then d :: decode 1 rest
        else if c = '&' then
          let name := rest.takeWhile (· != ';')
          match entity? name with
          | some e =>
            if name.length < rest.length then e ++ decode (name.length + 1) rest
            else c :: decode 0 rest
          | none => c :: decode 0 rest
        else c :: decode 0 rest

/-- The protocols that no link may use. -/
def badProtocols : List Text :=
  ["vbscript:", "javascript:", "file:", "data:"].map String.toList

/-- The data that a link may hold in spite of its protocol. -/
def goodData : List Text :=
  ["data:image/gif;", "data:image/png;", "data:image/jpeg;", "data:image/webp;"].map String.toList

/-- Whether a destination may be linked to. -/
def isSafe (source : Text) : Bool :=
  let url := ((decode 0 source).trim isTrimmed).toLowerAscii
  !(badProtocols.any (·.isPrefixOf url)) || goodData.any (·.isPrefixOf url)

/-! ## Titles -/

/-- The title up to its closing mark, and what follows the mark. -/
def titleTail? (closer : Char) : Text → Option (Text × Text)
  | [] => none
  | c :: rest =>
    if c = closer then some ([], rest)
    else if c = '(' ∧ closer = ')' then none
    else if c = '\\' then
      match rest with
      | [] => none
      | d :: rest => (titleTail? closer rest).map fun (title, behind) => (c :: d :: title, behind)
    else (titleTail? closer rest).map fun (title, behind) => (c :: title, behind)

/-- A title at the front of a text, and what follows it. -/
def title? : Text → Option (Text × Text)
  | [] => none
  | c :: rest =>
    if c = '"' ∨ c = '\'' then titleTail? c rest
    else if c = '(' then titleTail? ')' rest
    else none

/-- A title behind a destination: white space must stand between the two, unless the title goes on
    over several lines. -/
def titleBehind? (d : Destination) : Option (Text × Text) :=
  let start := d.rest.dropWhile fun c => isIndent c || c == '\n'
  let isSpaced := start.length < d.rest.length
  if d.isSealed then none
  else (title? start).filter fun (title, _) => isSpaced || title.contains '\n'

/-! ## Whole definitions -/

/-- The end of a line behind blanks, if nothing else stands there. -/
def lineEnd? (t : Text) : Option Text :=
  match t.dropWhile isIndent with
  | [] => some []
  | c :: rest => if c = '\n' then some (c :: rest) else none

/-- What follows a destination and its title, if there is one; a title with something behind it on
    its line is no title. -/
def ending? (d : Destination) : Option Text :=
  match titleBehind? d with
  | none => lineEnd? d.rest
  | some (title, behind) =>
    match lineEnd? behind with
    | some rest => some rest
    | none => if title.isEmpty then none else lineEnd? d.rest

/-- What follows a definition at the front of a text, from the end of its last line on. -/
def after? (t : Text) : Option Text :=
  match t with
  | [] => none
  | c :: rest =>
    if c = '[' then do
      let (label, behind) ← label? rest
      if label.all isTrimmed || behind.head? != some ':' then none
      else
        let d ← destination? (behind.tail.dropWhile fun c => isIndent c || c == '\n')
        if isSafe d.source then ending? d else none
    else none

/-- The text of lines, each with the line feed that ends it. -/
def textOf (ls : List Line) : Text :=
  ls.flatMap fun l => if l.isBroken then l.content ++ ['\n'] else l.content

end Definition

/-- A definition of a link reference, on a line and the lines that may continue it. -/
def definition? (f : Frame) (l : Line) (continuation : List Line) : Option Block :=
  let whole := Definition.textOf (l :: continuation)
  if l.isCode f then none
  else (Definition.after? whole).map fun rest =>
    .silent ((whole.take (whole.length - rest.length)).count '\n')

end MentionCommands
