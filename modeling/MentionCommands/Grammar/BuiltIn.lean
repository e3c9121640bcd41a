/-
  The grammars that every bot knows, in the order in which help lists them.
-/
import MentionCommands.Grammar.Assign
import MentionCommands.Grammar.Relabel

namespace MentionCommands

/-- The built-in grammars. -/
def builtInGrammars : List Grammar := [assignGrammar, relabelGrammar]

end MentionCommands
