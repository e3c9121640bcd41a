/-
  Character classes: sets of characters given by ranges of code points.

  * `CharClass.contains` searches the ranges, which stand in ascending order, and stops at the
    first range above the character.
-/

namespace MentionCommands

/-- A set of characters, as inclusive ranges of code points in ascending order. -/
structure CharClass where
  ranges : List (Nat × Nat)

namespace CharClass

/-- Whether a code point lies in one of the ranges; the search ends at a range above it. -/
def search (n : Nat) : List (Nat × Nat) → Bool
  | [] => false
  | (first, last) :: rest => if n < first then false else n ≤ last || search n rest

/-- Whether a character belongs to the class. -/
def contains (s : CharClass) (c : Char) : Bool := search c.toNat s.ranges

end CharClass

end MentionCommands
