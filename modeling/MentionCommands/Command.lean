/-
  Commands: what a comment can ask the bot to do.

  * `Command` is an assignment, a change of labels, or a command known by a word alone;
  * `Command.debugForm` is how log lines show a command.
-/
import MentionCommands.Text.Quoted

namespace MentionCommands

/-- A change of the assignee of an issue. -/
inductive Assignment where
  /-- The author of the comment takes the issue. -/
  | own
  /-- The author of the comment gives the issue back. -/
  | release
  /-- Somebody is given the issue. -/
  | user (name : Text)
  deriving DecidableEq, Repr

/-- What happens to a label. -/
inductive LabelAction where
  /-- The label is put on the issue. -/
  | add
  /-- The label is taken off the issue. -/
  | remove
  deriving DecidableEq, Repr

/-- A label to add or to remove. -/
structure LabelChange where
  action : LabelAction
  label : Text
  deriving DecidableEq, Repr

/-- A command. -/
inductive Command where
  /-- Changes the assignee. -/
  | assign (assignment : Assignment)
  /-- Changes labels, in the order in which they are written. -/
  | relabel (changes : List LabelChange)
  /-- Does what a word says. -/
  | plain (word : Text)
  deriving DecidableEq, Repr

/-! ## Names -/

/-- The name of an assignment. -/
def Assignment.label : Assignment → Text
  | own => "own".toList
  | release => "release".toList
  | user _ => "user".toList

/-- The user that an assignment names. -/
def Assignment.username? : Assignment → Option Text
  | own | release => none
  | user name => some name

/-- The name of an action. -/
def LabelAction.name : LabelAction → Text
  | add => "add".toList
  | remove => "remove".toList

/-! ## Debug forms -/

/-- The sign for a value that is absent. -/
def absent : Text := "None".toList

/-- How log lines show an assignment. -/
def Assignment.debugForm (a : Assignment) : Text :=
  let code := match a with
    | own => "OWN".toList
    | release => "RELEASE".toList
    | user _ => "USER".toList
  "AssignCommand(action=<AssignAction.".toList ++ code ++ ": ".toList ++ a.label.quoted ++
    ">, username=".toList ++ (a.username?.elim absent Text.quoted) ++ [')']

/-- How log lines show a change of a label. -/
def LabelChange.debugForm (c : LabelChange) : Text :=
  let code := match c.action with
    | .add => "ADD".toList
    | .remove => "REMOVE".toList
  "LabelDelta(action=<LabelAction.".toList ++ code ++ ": ".toList ++ c.action.name.quoted ++
    ">, label=".toList ++ c.label.quoted ++ [')']

/-- How log lines show a command. -/
def Command.debugForm : Command → Text
  | assign assignment => assignment.debugForm
  | relabel changes =>
    "RelabelCommand(deltas=[".toList ++
      Text.join ", ".toList (changes.map LabelChange.debugForm) ++ "])".toList
  | plain word => word.quoted

end MentionCommands
