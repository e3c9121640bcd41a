/-
  Sample grammars, which show the rules of dispatch in small.

  * `modifyGrammar` takes everything behind `modify` up to the end of the command;
  * `pingGrammar` takes the word `ping` alone;
  * `lexingGrammar` takes whatever token comes first, so it claims every command;
  * `silentGrammar` takes nothing, whatever it is called.
-/
import MentionCommands.Grammar.Basic

namespace MentionCommands

/-! ## Modifications of anything -/

/-- Reads tokens through the first one that ends a command. -/
def readThrough : Tokens → Reading Command
  | .finish => .accept (.plain "modified".toList) 0
  | .fault reason offset => .faulty reason offset
  | .next t rest =>
    if t.isEnd then .accept (.plain "modified".toList) t.stop
    else (readThrough rest).behind t.stop

/-- A grammar that takes any words behind its keyword. -/
def modifyGrammar : Grammar where
  kind := "modify".toList
  usage := "modify anything".toList
  description := "Modifies anything.".toList
  parse := parseTokens (readWord "modify".toList .pass readThrough)

/-! ## Pings -/

/-- The reason to refuse a ping with something behind it. -/
def pingReason : Reason :=
  ⟨"PingErrorKind.EXPECTED_END".toList, "expected end of command".toList⟩

/-- Reads the end of the text. -/
def readNothing : Tokens → Reading Command
  | .finish => .accept (.plain "pong".toList) 0
  | .fault reason offset => .faulty reason offset
  | .next _ _ => .fail pingReason

/-- A grammar that takes one word. -/
def pingGrammar : Grammar where
  kind := "ping".toList
  usage := "ping".toList
  description := "Pings the bot.".toList
  parse := parseTokens (readWord "ping".toList .pass readNothing)

/-! ## Any token -/

/-- Reads one token, if there is one. -/
def readToken : Tokens → Reading Command
  | .finish => .accept (.plain "lexed".toList) 0
  | .fault reason offset => .faulty reason offset
  | .next t _ => .accept (.plain "lexed".toList) t.stop

/-- A grammar that takes any first token, or none. -/
def lexingGrammar : Grammar where
  kind := "lexing".toList
  usage := "anything".toList
  description := "Lexes the first token without checking it.".toList
  parse := parseTokens readToken

/-! ## Nothing -/

/-- A grammar that takes nothing. -/
def silentGrammar (kind usage description : Text) : Grammar where
  kind
  usage
  description
  parse := parseTokens fun _ => .pass

/-- The sample grammars. -/
inductive Grammar.IsSample : Grammar → Prop where
  | modify : IsSample modifyGrammar
  | ping : IsSample pingGrammar
  | lexing : IsSample lexingGrammar
  | silent (kind usage description : Text) : IsSample (silentGrammar kind usage description)

end MentionCommands
