/-
  Replies: what the bot answers to a comment, in Markdown.

  * `helpListing` lists the commands;
  * `rejection` shows what is wrong with a command, and how it is written; `ambiguityReply` names
    the commands that one could be;
  * `Report.reply?` is the reply to a report, if it needs one.
-/
import MentionCommands.Dispatch.Session
import MentionCommands.Grammar.BuiltIn

namespace MentionCommands

/-- The list of commands. -/
def helpListing (bot : Text) (grammars : List Grammar) : Text :=
  "### 🤖 ".toList ++ bot ++ " Commands\n".toList ++
    "Comment any of the commands below to trigger the bot:\n\n".toList ++
    grammars.flatMap fun g => g.help bot ++ ['\n']

/-- The reply to a refused command.  The kind selects the grammars whose help is shown; if it is
    absent, they all are. -/
def rejection (bot : Text) (grammars : List Grammar) (kind : Option Text)
    (error : Option CommandError) : Text :=
  let shown := grammars.filter fun g => kind.all (g.kind == ·)
  "### ⚠️ Invalid `".toList ++ kind.getD absent ++ "` Command\n\n".toList ++
    "I couldn't understand the command in your comment:\n\n```\n".toList ++
    error.elim absent CommandError.message ++
    "\n```\n\n**Here's how to use it correctly:**\n\n".toList ++
    Text.join ['\n'] (shown.map (·.help bot))

/-- The reply to a command that several grammars claim. -/
def ambiguityReply (grammars : List Text) : Text :=
  "### ❌ Ambiguous Command\n\n".toList ++
    "The command in your comment is recognized by more than one command (".toList ++
    Text.join ", ".toList grammars ++
    ("), so I didn't run\nany of them. This is a problem with the bot configuration, " ++
      "please report it to the bot maintainers.").toList

/-- The reply to a report. -/
def Report.reply? (bot : Text) : Report → Option Text
  | nothing | matched _ _ => none
  | rejected grammar error =>
    some (rejection bot builtInGrammars (some grammar) (some (.diagnostic error)))
  | ambiguous ambiguity => some (ambiguityReply ambiguity.grammars)

end MentionCommands
