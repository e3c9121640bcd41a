/-
  Blocks of raw HTML.

  Seven kinds of opening each have a closing of their own: a verbatim element closes with an end
  tag, a comment with `-->`, an instruction with `?>`, a declaration with `>`, character data with
  `]]>`; a block element and any other complete tag close at a blank line.  All but the last kind
  may follow a paragraph without a blank line.  The case of ASCII letters does not matter.
-/
import MentionCommands.Code.Inline
import MentionCommands.Markdown.Leaf
import MentionCommands.Text.Pattern

namespace MentionCommands

/-- The kinds of HTML block. -/
inductive HtmlKind where
  /-- An element whose content is kept as it is: a script, a style, preformatted text. -/
  | verbatim
  /-- A comment. -/
  | comment
  /-- A processing instruction. -/
  | instruction
  /-- A declaration. -/
  | declaration
  /-- A section of character data. -/
  | characterData
  /-- An element that makes a block. -/
  | element
  /-- A line that is one complete tag. -/
  | tag
  deriving DecidableEq, Repr

/-- The elements whose content is kept as it is. -/
def verbatimNames : List Text := ["script", "pre", "style", "textarea"].map String.toList

/-- The elements that make a block. -/
def blockNames : List Text :=
  ["address", "article", "aside", "base", "basefont", "blockquote", "body", "caption", "center",
    "col", "colgroup", "dd", "details", "dialog", "dir", "div", "dl", "dt", "fieldset",
    "figcaption", "figure", "footer", "form", "frame", "frameset", "h1", "h2", "h3", "h4", "h5",
    "h6", "head", "header", "hr", "html", "iframe", "legend", "li", "link", "main", "menu",
    "menuitem", "nav", "noframes", "ol", "optgroup", "option", "p", "param", "search", "section",
    "summary", "table", "tbody", "td", "tfoot", "th", "thead", "title", "tr", "track",
    "ul"].map String.toList

/-- What follows one of the names at the front of a text. -/
def afterNames (names : List Text) (t : Text) : List Text :=
  (names.filter (·.isPrefixOf t)).map fun name => t.drop name.length

/-! ## Tags -/

namespace Html

/-- An ASCII letter. -/
def letter : Pattern := .one Char.isAlpha

/-- The name of an element. -/
def name : Pattern := .seq letter (.many (.one fun c => c.isAlphanum || c == '-'))

/-- White space, at least one character. -/
def gap : Pattern := .many1 (.one isSpace)

/-- White space, maybe none. -/
def blanks : Pattern := .many (.one isSpace)

/-- The name of an attribute. -/
def attributeName : Pattern :=
  .seq (.one fun c => c.isAlpha || c == '_' || c == ':')
    (.many (.one fun c => c.isAlphanum || c == ':' || c == '.' || c == '_' || c == '-'))

/-- A character of a value without quotes. -/
def isBareValue (c : Char) : Bool :=
  c.toNat > 0x20 && c != '"' && c != '\'' && c != '=' && c != '<' && c != '>' && c != backtick

/-- A value between two quotes. -/
def quotedValue (quote : Char) : Pattern :=
  .concat [.char quote, .many (.one (· != quote)), .char quote]

/-- The value of an attribute. -/
def value : Pattern :=
  .either (.many1 (.one isBareValue)) (.either (quotedValue '\'') (quotedValue '"'))

/-- An attribute with the white space before it. -/
def attributeText : Pattern :=
  .concat [gap, attributeName, .optional (.concat [blanks, .char '=', blanks, value])]

/-- An opening tag. -/
def openTag : Pattern :=
  .concat [.char '<', name, .many attributeText, blanks, .optional (.char '/'), .char '>']

/-- A closing tag. -/
def closeTag : Pattern := .concat [.char '<', .char '/', name, blanks, .char '>']

/-- A line that is one complete tag. -/
def tagLine : Pattern := .seq (.either openTag closeTag) blanks

end Html

/-! ## Openings and closings -/

namespace HtmlKind

/-- Whether the name of a verbatim element ends before a text. -/
def endsVerbatim : Text → Bool
  | [] => true
  | c :: _ => isSpace c || c == '>'

/-- Whether the name of a block element ends before a text. -/
def endsElement : Text → Bool
  | [] => true
  | c :: rest => isSpace c || c == '>' || (c == '/' && rest.head? == some '>')

/-- Whether a text is the start of a line after `<!` that declares something. -/
def declares : Text → Bool
  | [] => false
  | c :: _ => c.isAlpha

/-- The kind of block that a line opens, by the line after its `<` in small letters. -/
def ofTail? (line tail : Text) : Option HtmlKind :=
  let name := if tail.head? == some '/' then tail.tail else tail
  if (afterNames verbatimNames tail).any endsVerbatim then some .verbatim
  else if "!--".toList.isPrefixOf tail then some .comment
  else if "?".toList.isPrefixOf tail then some .instruction
  else if tail.head? == some '!' && declares tail.tail then some .declaration
  else if "![cdata[".toList.isPrefixOf tail && "<![CDATA[".toList.isPrefixOf line then
    some .characterData
  else if (afterNames blockNames name).any endsElement then some .element
  else if Html.tagLine.fits line then some .tag
  else none

/-- The kind of block that the content of a line opens. -/
def ofContent? (t : Text) : Option HtmlKind :=
  if t.head? == some '<' then ofTail? t (Text.toLowerAscii t.tail) else none

/-- Whether a block may follow a paragraph without a blank line. -/
def interrupts (k : HtmlKind) : Bool := k != tag

/-- Whether a block ends at a blank line. -/
def endsBlank (k : HtmlKind) : Bool := k == element || k == tag

/-- Whether the content of a line closes a block. -/
def isClosedBy (k : HtmlKind) (t : Text) : Bool :=
  match k with
  | verbatim => verbatimNames.any fun name => t.toLowerAscii.includes ("</".toList ++ name ++ ['>'])
  | comment => t.includes "-->".toList
  | instruction => t.includes "?>".toList
  | declaration => t.includes ['>']
  | characterData => t.includes "]]>".toList
  | element | tag => t.isEmpty

/-- How many lines a block covers after a line that does not close it. -/
def extent (k : HtmlKind) (f : Frame) : List Line → Nat
  | [] => 0
  | l :: rest =>
    if l.isOutside f && (k.endsBlank || !l.isBlank) then 0
    else if k.isClosedBy l.content then if l.isBlank then 0 else 1
    else 1 + k.extent f rest

end HtmlKind

/-- The kind of HTML block that a line opens in a frame. -/
def htmlOpening? (f : Frame) (l : Line) : Option HtmlKind :=
  if l.isCode f then none else HtmlKind.ofContent? l.content

/-- A block of HTML. -/
def htmlBlock? (f : Frame) (l : Line) (rest : List Line) : Option Block :=
  (htmlOpening? f l).map fun kind =>
    .silent (if kind.isClosedBy l.content then 0 else kind.extent f rest)

end MentionCommands
