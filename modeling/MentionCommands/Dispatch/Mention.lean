/-
  Mentions of the bot.

  The bot is mentioned by `@` and its name.  A mention counts if it is a word of its own and
  continues no word: neither a letter, a digit, an underscore nor another `@` stands in front.

  * `nextMention?` is where the next mention starts;
  * `occurrence?` is where the mark of the bot occurs at all.
-/
import MentionCommands.Text.Alphanumeric
import MentionCommands.Token.Lexeme

namespace MentionCommands

/-- How the bot is written in a comment. -/
def marker (bot : Text) : Text := '@' :: bot

/-- Where the mark of the bot occurs at or behind an offset; a negative offset counts from the end
    of the text. -/
def occurrence? (t bot : Text) (start : Int) : Option Nat :=
  let offset := if start < 0 then (t.length + start).toNat else start.toNat
  (Text.indexOf? (marker bot) (t.drop offset)).map (offset + ·)

/-! ## Mentions -/

/-- Whether a word goes on behind a character. -/
def continuesWord (c : Char) : Bool := isAlphanumeric c || c == '_' || c == '@'

/-- Whether the text behind a character starts with a mention. -/
def isMention (mark : Text) (before : Option Char) (t : Text) : Bool :=
  mark.isPrefixOf t && !before.any continuesWord && Lexeme.ofText t == .token ⟨.word, 0, mark⟩

/-- The offset of the first mention in the text behind a character. -/
def findMention? (mark : Text) (before : Option Char) : Text → Option Nat
  | [] => none
  | c :: rest =>
    if isMention mark before (c :: rest) then some 0
    else (findMention? mark (some c) rest).map (· + 1)

/-- The character in front of an offset. -/
def charBefore? (t : Text) (offset : Nat) : Option Char := (t.take offset).getLast?

/-- The offset of the first mention at or behind a cursor. -/
def nextMention? (t bot : Text) (cursor : Nat) : Option Nat :=
  (findMention? (marker bot) (charBefore? t cursor) (t.drop cursor)).map (cursor + ·)

end MentionCommands
