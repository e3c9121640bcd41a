/-
  Patterns: regular expressions over characters.

  * `Pattern.fits` decides whether a whole text fits, by taking derivatives: the pattern of
    what may follow a character.
-/
import MentionCommands.Text.Basic

namespace MentionCommands

/-- A regular expression. -/
inductive Pattern where
  /-- Fits no text. -/
  | fail
  /-- Fits the empty text. -/
  | empty
  /-- Fits one character that passes a test. -/
  | one (p : Char → Bool)
  /-- Fits what the first and then the second one fits. -/
  | seq (first second : Pattern)
  /-- Fits what either one fits. -/
  | either (first second : Pattern)
  /-- Fits any number of repetitions. -/
  | many (p : Pattern)

namespace Pattern

/-- The given character alone. -/
def char (c : Char) : Pattern := one (· == c)

/-- One repetition or more. -/
def many1 (p : Pattern) : Pattern := seq p (many p)

/-- At most one repetition. -/
def optional (p : Pattern) : Pattern := either empty p

/-- Patterns one after another. -/
def concat : List Pattern → Pattern
  | [] => empty
  | [p] => p
  | p :: ps => seq p (concat ps)

/-- Whether a pattern fits the empty text. -/
def fitsEmpty : Pattern → Bool
  | fail | one _ => false
  | empty | many _ => true
  | seq p q => p.fitsEmpty && q.fitsEmpty
  | either p q => p.fitsEmpty || q.fitsEmpty

/-- The sequence of two patterns, short where one of them is trivial. -/
def andThen : Pattern → Pattern → Pattern
  | fail, _ => fail
  | empty, q => q
  | p, q => seq p q

/-- The choice of two patterns, short where one of them fits nothing. -/
def orElse : Pattern → Pattern → Pattern
  | fail, q => q
  | p, fail => p
  | p, q => either p q

/-- The pattern of what may follow a character. -/
def after (c : Char) : Pattern → Pattern
  | fail | empty => fail
  | one p => if p c then empty else fail
  | seq p q =>
    if p.fitsEmpty then ((p.after c).andThen q).orElse (q.after c) else (p.after c).andThen q
  | either p q => (p.after c).orElse (q.after c)
  | many p => (p.after c).andThen (many p)

/-- Whether a pattern fits the whole text. -/
def fits (p : Pattern) : Text → Bool
  | [] => p.fitsEmpty
  | c :: rest => (p.after c).fits rest

end Pattern

end MentionCommands
