/-
  Assignments: `claim`, `release-assignment` and `assign [to] @user`.

  A command ends with the text, or with a dot, a semicolon or a line end.

  * `assignGrammar` is the grammar; `AssignFault` are the reasons for which it refuses.
-/
import MentionCommands.Grammar.Basic

namespace MentionCommands

/-- Why an assignment is malformed. -/
inductive AssignFault where
  /-- Something follows the command. -/
  | trailingWords
  /-- The command ends before a user is named. -/
  | missingUser
  /-- The user is not written as a mention. -/
  | unmentionedUser
  deriving DecidableEq, Repr

/-- The reason that a fault gives. -/
def AssignFault.reason : AssignFault → Reason
  | trailingWords => ⟨"AssignErrorKind.EXPECTED_END".toList, "expected end of command".toList⟩
  | missingUser => ⟨"AssignErrorKind.NO_USER".toList, "expected a user to assign".toList⟩
  | unmentionedUser =>
    ⟨"AssignErrorKind.MENTION_USER".toList,
      "user should be mentioned, e.g. `@username`".toList⟩

/-- The name in a token that mentions a user. -/
def mentionedUser? (t : Token) : Option Text :=
  if t.isWord then
    match t.value with
    | c :: d :: name => if c = '@' then some (d :: name) else none
    | _ => none
  else none

/-- Reads the end of a command. -/
def readEnd (a : Assignment) : Tokens → Reading Assignment
  | .finish => .accept a 0
  | .fault reason offset => .faulty reason offset
  | .next t _ => if t.isEnd then .accept a t.stop else .fail AssignFault.trailingWords.reason

/-- Reads a mentioned user and the end of a command. -/
def readUser : Tokens → Reading Assignment
  | .finish => .fail AssignFault.missingUser.reason
  | .fault reason offset => .faulty reason offset
  | .next t rest =>
    if t.isEnd then .fail AssignFault.missingUser.reason
    else match mentionedUser? t with
      | none => .fail AssignFault.unmentionedUser.reason
      | some name => (readEnd (.user name) rest).behind t.stop

/-- Reads a user behind a `to` that may be left out. -/
def readAssignee : Tokens → Reading Assignment := readOptional (·.isTheWord "to".toList) readUser

/-- Reads a whole assignment. -/
def readAssignment : Tokens → Reading Assignment
  | .finish => .pass
  | .fault reason offset => .faulty reason offset
  | .next t rest =>
    if t.isTheWord "claim".toList then (readEnd .own rest).behind t.stop
    else if t.isTheWord "release-assignment".toList then (readEnd .release rest).behind t.stop
    else if t.isTheWord "assign".toList then (readAssignee rest).behind t.stop
    else .pass

/-- The grammar of assignments. -/
def assignGrammar : Grammar where
  kind := "assign".toList
  usage := "assign @username".toList
  description :=
    ("Assigns a user, claims the issue for yourself with `claim` or drops it with " ++
      "`release-assignment`.").toList
  parse := parseTokens fun tokens => (readAssignment tokens).map .assign

end MentionCommands
