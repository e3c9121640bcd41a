/-
  Commands as they are written, and how they are read back.

  * `Command.written` writes a command of the built-in grammars, `Command.IsWritable` says which
    ones can be written;
  * `readAssignment_written`, `readRelabeling_written`: the grammar of a command reads it back and
    stops behind its dot; `readAssignment_relabel`, `readRelabeling_assign`: the other grammar takes
    it for none of its own.
-/
import MentionCommands.Grammar.BuiltIn
import MentionCommands.Proofs.Grammar.Escape
import MentionCommands.Proofs.Token.Words

namespace MentionCommands

/-! ## Writing -/

/-- An assignment as it is written. -/
def Assignment.written : Assignment → Text
  | own => "claim".toList
  | release => "release-assignment".toList
  | user name => "assign @".toList ++ name

theorem Assignment.written_own : own.written = "claim".toList := rfl

theorem Assignment.written_release : release.written = "release-assignment".toList := rfl

theorem Assignment.written_user (name : Text) :
    (user name).written = "assign".toList ++ ' ' :: '@' :: name := rfl

/-- Whether an assignment can be written. -/
def Assignment.IsWritable : Assignment → Prop
  | own | release => True
  | user name => WordSafe name

/-- A change as it is written: a label to add stands between double quotes, a label to remove
    behind a minus sign. -/
def LabelChange.written (c : LabelChange) : Text :=
  match c.action with
  | .add => '"' :: (escape c.label ++ ['"'])
  | .remove => '-' :: c.label

/-- Whether a change can be written. -/
def LabelChange.IsWritable (c : LabelChange) : Prop :=
  match c.action with
  | .add => c.label ≠ []
  | .remove => WordSafe c.label

/-- Changes as they are written, with a comma between any two. -/
def writtenChanges (changes : List LabelChange) : Text :=
  Text.join ", ".toList (changes.map LabelChange.written)

/-- A command as it is written. -/
def Command.written : Command → Text
  | assign a => a.written
  | relabel changes => "modify labels: ".toList ++ writtenChanges changes
  | plain word => word

/-- Whether a command can be written for the built-in grammars. -/
def Command.IsWritable : Command → Prop
  | assign a => a.IsWritable
  | relabel changes => changes ≠ [] ∧ ∀ c ∈ changes, c.IsWritable
  | plain _ => False

instance (a : Assignment) : Decidable a.IsWritable :=
  match a with
  | .own | .release => inferInstanceAs (Decidable True)
  | .user name => inferInstanceAs (Decidable (WordSafe name))

instance (c : LabelChange) : Decidable c.IsWritable :=
  match c with
  | ⟨.add, label⟩ => inferInstanceAs (Decidable (label ≠ []))
  | ⟨.remove, label⟩ => inferInstanceAs (Decidable (WordSafe label))

instance (c : Command) : Decidable c.IsWritable :=
  match c with
  | .assign a => inferInstanceAs (Decidable a.IsWritable)
  | .relabel changes =>
    inferInstanceAs (Decidable (changes ≠ [] ∧ ∀ c ∈ changes, c.IsWritable))
  | .plain _ => inferInstanceAs (Decidable False)

/-! ## Assignments -/

theorem takeWord_dot (rest : Text) : takeWord ('.' :: '\n' :: rest) = .ok [] :=
  takeWord_mark rfl rfl rest

theorem ofText_dot (rest : Text) :
    Tokens.ofText ('.' :: '\n' :: rest) = .next ⟨.dot, 0, ['.']⟩ (Tokens.ofText ('\n' :: rest)) :=
  Tokens.ofText_mark rfl _

theorem readEnd_dot (a : Assignment) (rest : Text) :
    readEnd a (Tokens.ofText ('.' :: '\n' :: rest)) = .accept a 1 := by
  rw [ofText_dot]
  rfl

/-- A safe text with no mark in front is the next word, behind a blank. -/
theorem ofText_blank_word {w rest : Text} (h : WordSafe w)
    (hmark : w.head?.bind punctuation? = none) (hrest : takeWord rest = .ok []) :
    Tokens.ofText (' ' :: (w ++ rest)) = .next ⟨.word, 1, w⟩ (Tokens.ofText rest) :=
  Tokens.ofText_blank (Lexeme.ofText_word h hmark hrest)

theorem WordSafe.mention {name : Text} (h : WordSafe name) : WordSafe ('@' :: name) :=
  h.cons (by decide) (by decide) rfl

theorem mentionedUser?_mention {name : Text} (h : WordSafe name) (n : Nat) :
    mentionedUser? ⟨.word, n, '@' :: name⟩ = some name := by
  obtain ⟨c, name, rfl⟩ := List.exists_cons_of_ne_nil h.ne_nil
  rfl

theorem isTheWord_self (n : Nat) (w : Text) : (Token.mk .word n w).isTheWord w = true :=
  beq_self_eq_true w

/-- A word is no other word with another first character. -/
theorem isTheWord_of_head {c : Char} {w word : Text} (n : Nat) (h : word.head? ≠ some c) :
    (Token.mk .word n (c :: w)).isTheWord word = false := by
  show (c :: w == word) = false
  rw [beq_eq_false_iff_ne]
  rintro rfl
  exact h rfl

theorem readAssignee_mention {name : Text} (h : WordSafe name) (rest : Text) :
    readAssignee (Tokens.ofText (' ' :: ('@' :: name ++ '.' :: '\n' :: rest))) =
      .accept (.user name) (name.length + 3) := by
  have hto : (Token.mk .word 1 ('@' :: name)).isTheWord "to".toList = false :=
    isTheWord_of_head 1 (by decide)
  rw [ofText_blank_word h.mention rfl (takeWord_dot rest)]
  simp only [readAssignee, readOptional, hto, readUser, mentionedUser?_mention h, readEnd_dot,
    Token.isEnd, Bool.false_eq_true, if_false, Reading.behind, Token.stop, List.length_cons,
    Reading.accept.injEq, true_and]
  omega

/-- **An assignment is read back.** -/
theorem readAssignment_written {a : Assignment} (h : a.IsWritable) (rest : Text) :
    readAssignment (Tokens.ofText (' ' :: (a.written ++ '.' :: '\n' :: rest))) =
      .accept a (a.written.length + 2) := by
  cases a with
  | own =>
    rw [Assignment.written_own, ofText_blank_word (by decide) rfl (takeWord_dot rest),
      readAssignment, if_pos (isTheWord_self ..), readEnd_dot]
    simp only [Reading.behind, Token.stop, Reading.accept.injEq, true_and]
    omega
  | release =>
    have hclaim :
        (Token.mk .word 1 "release-assignment".toList).isTheWord "claim".toList = false := by
      decide
    rw [Assignment.written_release, ofText_blank_word (by decide) rfl (takeWord_dot rest),
      readAssignment, hclaim, if_neg Bool.false_ne_true, if_pos (isTheWord_self ..), readEnd_dot]
    simp only [Reading.behind, Token.stop, Reading.accept.injEq, true_and]
    omega
  | user name =>
    have hclaim : (Token.mk .word 1 "assign".toList).isTheWord "claim".toList = false := by decide
    have hrelease :
        (Token.mk .word 1 "assign".toList).isTheWord "release-assignment".toList = false := by
      decide
    rw [Assignment.written_user, List.append_assoc, List.cons_append,
      ofText_blank_word (by decide) rfl (takeWord_space rfl _), readAssignment, hclaim, hrelease,
      if_neg Bool.false_ne_true, if_neg Bool.false_ne_true, if_pos (isTheWord_self ..),
      readAssignee_mention h]
    simp only [Reading.behind, Token.stop, Reading.accept.injEq, true_and, List.length_append,
      List.length_cons]
    omega

/-! ## Changes of labels -/

/-- The kind of the token that a change is written by. -/
def LabelChange.tokenKind (c : LabelChange) : TokenKind :=
  match c.action with
  | .add => .quote
  | .remove => .word

/-- The token that a change is written by, behind `n` blanks. -/
def LabelChange.token (n : Nat) (c : LabelChange) : Token := ⟨c.tokenKind, n, c.written⟩

namespace LabelChange

variable {c : LabelChange}

theorem ofText_written (h : c.IsWritable) {rest : Text} (hrest : takeWord rest = .ok []) :
    Tokens.ofText (' ' :: (c.written ++ rest)) = .next (c.token 1) (Tokens.ofText rest) := by
  refine Tokens.ofText_blank ?_
  obtain ⟨action, label⟩ := c
  cases action with
  | add => exact ofText_inQuotes label rest
  | remove =>
    have hsafe : WordSafe ('-' :: label) := WordSafe.cons (by decide) (by decide) rfl h
    exact Lexeme.ofText_word hsafe rfl hrest

/-- **The token of a change says what the change is.** -/
theorem change?_token (h : c.IsWritable) (n : Nat) : (c.token n).change? = .ok c := by
  obtain ⟨action, label⟩ := c
  cases action with
  | add => exact change?_inQuotes n label
  | remove =>
    obtain ⟨d, label, rfl⟩ := List.exists_cons_of_ne_nil (WordSafe.ne_nil h)
    rfl

/-- The token of a change is no keyword. -/
theorem isTheWord_token (n : Nat) {word : Text} (h : word.head? ≠ some '-') :
    (c.token n).isTheWord word = false := by
  obtain ⟨action, label⟩ := c
  cases action with
  | add => rfl
  | remove => exact isTheWord_of_head n h

theorem token_not_mark (n : Nat) :
    (c.token n).isColon = false ∧ (c.token n).isEnd = false := by
  obtain ⟨action, label⟩ := c
  cases action <;> exact ⟨rfl, rfl⟩

end LabelChange

/-- Where a list of changes may go on, one is read. -/
theorem readChanges_token {c : LabelChange} (h : c.IsWritable) {phase : ListPhase}
    (hphase : phase.allowsComma = false) (n : Nat) (rest : Tokens) :
    readChanges phase (.next (c.token n) rest) =
      ((readChanges .change rest).map (c :: ·)).behind (n + c.written.length) := by
  have hand : (c.token n).isTheWord "and".toList = false :=
    LabelChange.isTheWord_token n (by decide)
  simp only [readChanges, hphase, hand, (LabelChange.token_not_mark n).2, Bool.and_false,
    Bool.false_and, Bool.false_eq_true, if_false, LabelChange.change?_token h]
  rfl

theorem writtenChanges_singleton (c : LabelChange) : writtenChanges [c] = c.written := rfl

theorem writtenChanges_cons_cons (c d : LabelChange) (cs : List LabelChange) :
    writtenChanges (c :: d :: cs) = c.written ++ ',' :: ' ' :: writtenChanges (d :: cs) := by
  show c.written ++ ", ".toList ++ writtenChanges (d :: cs) = _
  rw [List.append_assoc]
  rfl

/-- What stands behind the first change of a list that ends with a dot. -/
theorem exists_writtenChanges_cons (c : LabelChange) (cs : List LabelChange) (rest : Text) :
    ∃ behind, writtenChanges (c :: cs) ++ '.' :: '\n' :: rest = c.written ++ behind ∧
      takeWord behind = .ok [] := by
  cases cs with
  | nil => exact ⟨_, rfl, takeWord_dot rest⟩
  | cons d cs =>
    rw [writtenChanges_cons_cons, List.append_assoc]
    exact ⟨_, rfl, takeWord_mark rfl rfl _⟩

/-- **A list of changes is read back.** -/
theorem readChanges_written {changes : List LabelChange} (hne : changes ≠ [])
    (h : ∀ c ∈ changes, c.IsWritable) {phase : ListPhase} (hphase : phase.allowsComma = false)
    (rest : Text) :
    readChanges phase (Tokens.ofText (' ' :: (writtenChanges changes ++ '.' :: '\n' :: rest))) =
      .accept changes ((writtenChanges changes).length + 2) := by
  -- a list starts at its opening, and goes on behind a comma
  induction changes generalizing phase with
  | nil => exact absurd rfl hne
  | cons c cs ih =>
    have hc := h c List.mem_cons_self
    cases cs with
    | nil =>
      have hend : readChanges .change (Tokens.ofText ('.' :: '\n' :: rest)) = .accept [] 1 := by
        rw [ofText_dot]
        rfl
      rw [writtenChanges_singleton, LabelChange.ofText_written hc (takeWord_dot rest),
        readChanges_token hc hphase, hend]
      simp only [Reading.map, Reading.behind, Reading.accept.injEq, true_and]
      omega
    | cons d cs =>
      have hcomma (text : Text) : readChanges .change (Tokens.ofText (',' :: text)) =
          (readChanges .comma (Tokens.ofText text)).behind 1 := by
        rw [Tokens.ofText_mark rfl]
        rfl
      have hih := ih (List.cons_ne_nil d cs) (List.forall_mem_cons.1 h).2
        (show ListPhase.comma.allowsComma = false from rfl)
      rw [writtenChanges_cons_cons, List.append_assoc, List.cons_append, List.cons_append,
        LabelChange.ofText_written hc (takeWord_mark rfl rfl _), readChanges_token hc hphase,
        hcomma, hih]
      simp only [Reading.map, Reading.behind, Reading.accept.injEq, true_and, List.length_append,
        List.length_cons]
      omega

theorem readOptional_of_first {α : Type} {p : Token → Bool} {read : Tokens → Reading α} {t : Token}
    {rest : Tokens} (h : p t = false) :
    readOptional p read (.next t rest) = read (.next t rest) := by
  simp only [readOptional, h, Bool.false_eq_true, if_false]

theorem refuseRemovals_false (r : Reading (List LabelChange)) : refuseRemovals false r = r := by
  cases r <;> rfl

/-- Behind a colon, a token that neither is one nor reads `to` starts the list. -/
theorem readList_colon {t : Token} {rest : Tokens} (hto : t.isTheWord "to".toList = false)
    (hcolon : t.isColon = false) :
    readList (.next ⟨.colon, 0, [':']⟩ (.next t rest)) =
      (readChanges .opening (.next t rest)).behind 1 := by
  have hannounced : (Tokens.next t rest).first?.any (·.isTheWord "to".toList) = false := hto
  have hself : (Token.mk .colon 0 [':']).isColon = true := rfl
  rw [readList, readOptional, if_pos hself]
  simp only [hannounced]
  rw [readOptional_of_first (p := (·.isTheWord "to".toList)) hto, readOptional_of_first hcolon,
    refuseRemovals_false]
  rfl

/-- What a colon announces is read back. -/
theorem readList_written {changes : List LabelChange} (hne : changes ≠ [])
    (h : ∀ c ∈ changes, c.IsWritable) (rest : Text) :
    readList (Tokens.ofText (':' :: ' ' :: (writtenChanges changes ++ '.' :: '\n' :: rest))) =
      .accept changes ((writtenChanges changes).length + 3) := by
  obtain ⟨c, cs, rfl⟩ := List.exists_cons_of_ne_nil hne
  obtain ⟨behind, hbehind, hends⟩ := exists_writtenChanges_cons c cs rest
  have hto : (c.token 1).isTheWord "to".toList = false := LabelChange.isTheWord_token 1 (by decide)
  have hchanges :=
    readChanges_written hne h (show ListPhase.opening.allowsComma = false from rfl) rest
  rw [hbehind, LabelChange.ofText_written (h c List.mem_cons_self) hends] at hchanges
  rw [Tokens.ofText_mark rfl, hbehind, LabelChange.ofText_written (h c List.mem_cons_self) hends,
    readList_colon hto (LabelChange.token_not_mark 1).1, hchanges]
  simp only [Reading.behind, Reading.accept.injEq, true_and]
  omega

theorem Command.written_relabel (changes : List LabelChange) : (relabel changes).written =
    "modify".toList ++ ' ' :: ("labels".toList ++ ':' :: ' ' :: writtenChanges changes) := rfl

/-- The tokens of a written change of labels start with `modify`. -/
theorem ofText_relabel (changes : List LabelChange) (rest : Text) :
    Tokens.ofText (' ' :: ((Command.relabel changes).written ++ rest)) =
      .next ⟨.word, 1, "modify".toList⟩
        (.next ⟨.word, 1, "labels".toList⟩
          (Tokens.ofText (':' :: ' ' :: (writtenChanges changes ++ rest)))) := by
  have hends : takeWord (':' :: ' ' :: (writtenChanges changes ++ rest)) = .ok [] :=
    takeWord_mark rfl rfl _
  rw [Command.written_relabel, List.append_assoc, List.cons_append,
    ofText_blank_word (by decide) rfl (takeWord_space rfl _), List.append_assoc,
    List.cons_append, List.cons_append, ofText_blank_word (by decide) rfl hends]

/-- **A change of labels is read back.** -/
theorem readRelabeling_written {changes : List LabelChange} (hne : changes ≠ [])
    (h : ∀ c ∈ changes, c.IsWritable) (rest : Text) :
    readRelabeling
        (Tokens.ofText (' ' :: ((Command.relabel changes).written ++ '.' :: '\n' :: rest))) =
      .accept changes ((Command.relabel changes).written.length + 2) := by
  rw [ofText_relabel, readRelabeling, readWord, if_pos (isTheWord_self ..), readWord,
    if_pos (isTheWord_self ..), readList_written hne h, Command.written_relabel]
  simp only [Reading.behind, Token.stop, Reading.accept.injEq, true_and, List.length_append,
    List.length_cons]
  omega

/-! ## Commands of the other grammar -/

/-- The grammar of assignments takes a change of labels for none of its own. -/
theorem readAssignment_relabel (changes : List LabelChange) (rest : Text) :
    readAssignment (Tokens.ofText (' ' :: ((Command.relabel changes).written ++ rest))) =
      .pass := by
  have hclaim : (Token.mk .word 1 "modify".toList).isTheWord "claim".toList = false := by decide
  have hrelease :
      (Token.mk .word 1 "modify".toList).isTheWord "release-assignment".toList = false := by
    decide
  have hassign : (Token.mk .word 1 "modify".toList).isTheWord "assign".toList = false := by decide
  rw [ofText_relabel, readAssignment, hclaim, hrelease, hassign]
  rfl

/-- The grammar of changes of labels takes an assignment for none of its own. -/
theorem readRelabeling_assign (a : Assignment) (rest : Text) :
    readRelabeling (Tokens.ofText (' ' :: (a.written ++ '.' :: '\n' :: rest))) = .pass := by
  have hword {w text : Text} (hsafe : WordSafe w) (hmark : w.head?.bind punctuation? = none)
      (hends : takeWord text = .ok [])
      (hmodify : (Token.mk .word 1 w).isTheWord "modify".toList = false) :
      readRelabeling (Tokens.ofText (' ' :: (w ++ text))) = .pass := by
    rw [ofText_blank_word hsafe hmark hends, readRelabeling, readWord, hmodify,
      if_neg Bool.false_ne_true]
  cases a with
  | own => exact hword (by decide) rfl (takeWord_dot rest) (by decide)
  | release => exact hword (by decide) rfl (takeWord_dot rest) (by decide)
  | user name =>
    rw [Assignment.written_user, List.append_assoc]
    exact hword (by decide) rfl (takeWord_space rfl _) (by decide)

end MentionCommands
