/-
  Changes of labels: `modify labels[:] [to][:] <change> [[,] [and] <change>]...`.

  A change is `+label`, `-label`, or a bare or quoted label to add.  The command ends with the
  text, or with a dot, a semicolon or a line end.  What may be left out is taken whenever it fits,
  so `and` behind a change parts it from the next one and is no label.

  * `relabelGrammar` is the grammar; `RelabelFault` are the reasons for which it refuses;
  * `Token.change?` is the change that one token writes; `unescape` undoes escapes in quotes.
-/
import MentionCommands.Grammar.Basic

namespace MentionCommands

/-- Why a change of labels is malformed. -/
inductive RelabelFault where
  /-- The word `labels` does not follow `modify`. -/
  | missingLabels
  /-- No label stands where one is needed. -/
  | missingChange
  /-- A sign stands without a label. -/
  | emptyLabel
  /-- Labels are removed although the list is announced by `to`. -/
  | misleadingTo
  deriving DecidableEq, Repr

/-- The reason that a fault gives. -/
def RelabelFault.reason : RelabelFault → Reason
  | missingLabels =>
    ⟨"RelabelErrorKind.EXPECTED_LABELS".toList, "expected `labels` after `modify`".toList⟩
  | missingChange =>
    ⟨"RelabelErrorKind.EXPECTED_LABEL_DELTA".toList,
      "expected a label to add (`+label`) or remove (`-label`)".toList⟩
  | emptyLabel => ⟨"RelabelErrorKind.EMPTY_LABEL".toList, "empty label".toList⟩
  | misleadingTo =>
    ⟨"RelabelErrorKind.MISLEADING_TO".toList,
      "`to` is misleading when removing labels, use `modify labels: ...`".toList⟩

/-! ## Changes -/

/-- A quoted text without its escapes: first escaped double quotes lose their backslash, then
    double backslashes become single. -/
def unescape (t : Text) : Text := (t.replaceAll ['\\', '"'] ['"']).replaceAll ['\\', '\\'] ['\\']

/-- The change that a word writes: a sign in front says what happens to the label. -/
def signedLabel : Text → LabelChange
  | [] => ⟨.add, []⟩
  | c :: label =>
    if c = '+' then ⟨.add, label⟩
    else if c = '-' then ⟨.remove, label⟩
    else ⟨.add, c :: label⟩

/-- The change that a token writes. -/
def Token.change? (t : Token) : Except RelabelFault LabelChange :=
  match t.kind with
  | .quote => .ok ⟨.add, unescape t.value⟩
  | .word =>
    let change := signedLabel t.value
    if change.label.isEmpty then .error .emptyLabel else .ok change
  | _ => .error .missingChange

/-! ## Lists of changes -/

/-- What stands in front of the next token in a list of changes. -/
inductive ListPhase where
  /-- Nothing. -/
  | opening
  /-- A change. -/
  | change
  /-- A comma behind a change. -/
  | comma
  /-- The word `and` behind a change or its comma. -/
  | conjunction
  deriving DecidableEq, Repr

namespace ListPhase

/-- Whether a comma parts two changes here. -/
def allowsComma (p : ListPhase) : Bool := p == change

/-- Whether `and` parts two changes here. -/
def allowsConjunction (p : ListPhase) : Bool := p == change || p == comma

/-- Whether the list may end here. -/
def allowsEnd (p : ListPhase) : Bool := p != opening

end ListPhase

/-- Reads a list of changes and the end of the command. -/
def readChanges (phase : ListPhase) : Tokens → Reading (List LabelChange)
  | .finish =>
    if phase.allowsEnd then .accept [] 0 else .fail RelabelFault.missingChange.reason
  | .fault reason offset => .faulty reason offset
  | .next t rest =>
    if phase.allowsComma && t.kind == .comma then (readChanges .comma rest).behind t.stop
    else if phase.allowsConjunction && t.isTheWord "and".toList then
      (readChanges .conjunction rest).behind t.stop
    else if phase.allowsEnd && t.isEnd then .accept [] t.stop
    else match t.change? with
      | .error fault => .fail fault.reason
      | .ok change => ((readChanges .change rest).map (change :: ·)).behind t.stop

theorem readChanges_opening (k : Token) (rest : Tokens) :
    readChanges .opening (.next k rest) = match k.change? with
      | .error fault => .fail fault.reason
      | .ok change => ((readChanges .change rest).map (change :: ·)).behind k.stop := by
  rw [readChanges]
  rfl

/-- A list of changes is never empty, since the first change stands in front of the others. -/
theorem ne_nil_of_readChanges_opening {tokens : Tokens} {changes : List LabelChange} {used : Nat}
    (h : readChanges .opening tokens = .accept changes used) : changes ≠ [] := by
  cases tokens with
  | finish | fault => cases h
  | next k rest =>
    rw [readChanges_opening] at h
    cases hc : k.change? with
    | error fault =>
      rw [hc] at h
      cases h
    | ok first =>
      rw [hc] at h
      cases hr : readChanges .change rest with
      | pass | refuse =>
        rw [hr] at h
        cases h
      | accept others n =>
        rw [hr] at h
        cases h
        exact List.cons_ne_nil first others

theorem readChanges_conjunction (k : Token) (rest : Tokens) :
    readChanges .conjunction (.next k rest) =
      if k.isEnd then .accept [] k.stop
      else match k.change? with
        | .error fault => .fail fault.reason
        | .ok change => ((readChanges .change rest).map (change :: ·)).behind k.stop := by
  rw [readChanges]
  rfl

theorem readChanges_comma (tokens : Tokens) : readChanges .comma tokens =
    readOptional (·.isTheWord "and".toList) (readChanges .conjunction) tokens := by
  cases tokens with
  | finish | fault => rfl
  | next k rest =>
    rw [readOptional, readChanges_conjunction, readChanges]
    rfl

theorem readChanges_change (tokens : Tokens) : readChanges .change tokens =
    readOptional (·.kind == .comma) (readChanges .comma) tokens := by
  cases tokens with
  | finish | fault => rfl
  | next k rest =>
    rw [readOptional, readChanges_comma (.next k rest), readOptional, readChanges_conjunction,
      readChanges]
    rfl

/-- Refuses, in front of the list, a list that was announced by `to` and removes labels. -/
def refuseRemovals (announced : Bool) : Reading (List LabelChange) → Reading (List LabelChange)
  | .accept changes used =>
    if announced && changes.any (·.action == .remove) then
      .fail RelabelFault.misleadingTo.reason
    else .accept changes used
  | reading => reading

/-- Whether a token is a colon. -/
def Token.isColon (t : Token) : Bool := t.kind == .colon

/-- Reads the list of changes behind `labels`, and what announces it. -/
def readList : Tokens → Reading (List LabelChange) :=
  readOptional Token.isColon fun tokens =>
    let announced := tokens.first?.any (·.isTheWord "to".toList)
    readOptional (·.isTheWord "to".toList)
      (readOptional Token.isColon fun list =>
        refuseRemovals announced (readChanges .opening list)) tokens

/-- Reads a whole change of labels. -/
def readRelabeling : Tokens → Reading (List LabelChange) :=
  readWord "modify".toList .pass
    (readWord "labels".toList (.fail RelabelFault.missingLabels.reason) readList)

/-- The grammar of changes of labels. -/
def relabelGrammar : Grammar where
  kind := "relabel".toList
  usage := "modify labels: +bug -feature".toList
  description := "Adds and removes labels.".toList
  parse := parseTokens fun tokens => (readRelabeling tokens).map .relabel

end MentionCommands
