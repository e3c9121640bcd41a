/-
  Keywords: how the first token decides whether a command is of a kind.

  * `NeverPasses`: a reader accepts or refuses, whatever the tokens are; so do all readers that
    stand behind a keyword;
  * `OpensWith words`: a reader passes unless the first token is one of the words, and behind that
    word it never passes;
  * `attempt_claimed_iff`: a grammar with such a reader claims a command just if the first token
    can be cut off and is one of the words.  A fault further on is a refusal, since the stream has
    moved by then; a fault of the first token is none;
  * `position_attempt_of_not_claimed`: what it does not claim it leaves unread.
-/
import Mathlib.Data.List.Basic
import MentionCommands.Proofs.Grammar.Progress

namespace MentionCommands

/-! ## First tokens -/

/-- Whether a token is one of the words. -/
def Token.isOneOf (words : List Text) (t : Token) : Bool := words.any t.isTheWord

theorem Token.isOneOf_shift (words : List Text) (n : Nat) (t : Token) :
    (t.shift n).isOneOf words = t.isOneOf words := rfl

theorem Token.isOneOf_singleton (word : Text) (t : Token) :
    t.isOneOf [word] = t.isTheWord word := by
  simp [isOneOf]

/-- A token is one word only. -/
theorem Token.eq_of_isTheWord {t : Token} {w w' : Text} (h : t.isTheWord w = true)
    (h' : t.isTheWord w' = true) : w = w' := by
  simp only [isTheWord, Bool.and_eq_true, beq_iff_eq] at h h'
  exact h.2.symm.trans h'.2

/-- A token that is one of the words is none of some others. -/
theorem Token.isOneOf_eq_false {t : Token} {words others : List Text}
    (hd : ∀ w ∈ words, w ∉ others) (h : t.isOneOf words = true) : t.isOneOf others = false := by
  obtain ⟨w, hw, ht⟩ := List.any_eq_true.1 h
  refine List.any_eq_false.2 fun w' hw' ht' => hd w hw ?_
  rwa [eq_of_isTheWord ht ht']

theorem Tokens.ofText_of_finished {t : Text} (h : Lexeme.ofText t = .finished) :
    ofText t = finish := by
  cases t with
  | nil => rfl
  | cons c rest => rw [ofText, scan, h]

theorem Tokens.ofText_of_fault {t : Text} {reason : LexFault} {offset : Nat}
    (h : Lexeme.ofText t = .fault reason offset) : ofText t = fault reason offset := by
  cases t with
  | nil => cases h
  | cons c rest => rw [ofText, scan, h]

theorem TokenStream.peek_eq_some_iff {s : TokenStream} {k : Token} :
    s.peek = .ok (some k) ↔ ∃ t, Lexeme.ofText s.remaining = .token t ∧ t.shift s.position = k := by
  unfold peek next
  cases Lexeme.ofText s.remaining with
  | finished => simp [Except.map]
  | fault => simp [Except.map]
  | token t => simp [Except.map]

/-! ## Readers behind a keyword -/

/-- A reader accepts or refuses, whatever the tokens are. -/
def NeverPasses {α : Type} (read : Tokens → Reading α) : Prop := ∀ tokens, read tokens ≠ .pass

section
variable {α β : Type} {read : Tokens → Reading α}

theorem Reading.accept_ne_pass (a : α) (used : Nat) : accept a used ≠ .pass := by
  intro h
  cases h

theorem Reading.refuse_ne_pass (refusal : Refusal) (used : Nat) :
    (refuse refusal used : Reading α) ≠ .pass := by
  intro h
  cases h

theorem Reading.behind_ne_pass {r : Reading α} (h : r ≠ .pass) (n : Nat) : r.behind n ≠ .pass := by
  cases r with
  | pass => exact absurd rfl h
  | accept => exact accept_ne_pass _ _
  | refuse => exact refuse_ne_pass _ _

theorem Reading.map_ne_pass {r : Reading α} (h : r ≠ .pass) (f : α → β) : r.map f ≠ .pass := by
  cases r with
  | pass => exact absurd rfl h
  | accept => exact accept_ne_pass _ _
  | refuse => exact refuse_ne_pass _ _

theorem NeverPasses.readWord (h : NeverPasses read) {otherwise : Reading α}
    (ho : otherwise ≠ .pass) (word : Text) : NeverPasses (readWord word otherwise read) := by
  rintro (_ | _ | ⟨t, rest⟩)
  · exact ho
  · exact Reading.refuse_ne_pass _ _
  · simp only [MentionCommands.readWord]
    split
    · exact Reading.behind_ne_pass (h rest) _
    · exact ho

theorem NeverPasses.readOptional (h : NeverPasses read) (p : Token → Bool) :
    NeverPasses (readOptional p read) := by
  rintro (_ | _ | ⟨t, rest⟩)
  · exact h _
  · exact h _
  · simp only [MentionCommands.readOptional]
    split
    · exact Reading.behind_ne_pass (h rest) _
    · exact h _

end

theorem neverPasses_readEnd (a : Assignment) : NeverPasses (readEnd a) := by
  rintro (_ | _ | ⟨t, rest⟩)
  · exact Reading.accept_ne_pass _ _
  · exact Reading.refuse_ne_pass _ _
  · simp only [readEnd]
    split
    · exact Reading.accept_ne_pass _ _
    · exact Reading.refuse_ne_pass _ _

theorem neverPasses_readUser : NeverPasses readUser := by
  rintro (_ | _ | ⟨t, rest⟩)
  · exact Reading.refuse_ne_pass _ _
  · exact Reading.refuse_ne_pass _ _
  · simp only [readUser]
    split
    · exact Reading.refuse_ne_pass _ _
    · split
      · exact Reading.refuse_ne_pass _ _
      · exact Reading.behind_ne_pass (neverPasses_readEnd _ rest) _

theorem neverPasses_readChanges (phase : ListPhase) : NeverPasses (readChanges phase) := by
  intro tokens
  induction tokens generalizing phase with
  | finish =>
    simp only [readChanges]
    split
    · exact Reading.accept_ne_pass _ _
    · exact Reading.refuse_ne_pass _ _
  | fault => exact Reading.refuse_ne_pass _ _
  | next t rest ih =>
    simp only [readChanges]
    split_ifs
    · exact Reading.behind_ne_pass (ih .comma) _
    · exact Reading.behind_ne_pass (ih .conjunction) _
    · exact Reading.accept_ne_pass _ _
    · split
      · exact Reading.refuse_ne_pass _ _
      · exact Reading.behind_ne_pass (Reading.map_ne_pass (ih .change) _) _

theorem refuseRemovals_ne_pass (announced : Bool) {r : Reading (List LabelChange)}
    (h : r ≠ .pass) : refuseRemovals announced r ≠ .pass := by
  cases r with
  | pass => exact absurd rfl h
  | accept =>
    simp only [refuseRemovals]
    split
    · exact Reading.refuse_ne_pass _ _
    · exact Reading.accept_ne_pass _ _
  | refuse => exact Reading.refuse_ne_pass _ _

theorem neverPasses_readList : NeverPasses readList := by
  refine NeverPasses.readOptional (fun tokens => ?_) Token.isColon
  refine NeverPasses.readOptional (NeverPasses.readOptional (fun list => ?_) Token.isColon) _ tokens
  exact refuseRemovals_ne_pass _ (neverPasses_readChanges .opening list)

/-! ## Readers with a keyword -/

/-- A reader passes unless the first token is one of the words; behind that word it accepts or
    refuses. -/
structure OpensWith {α : Type} (words : List Text) (read : Tokens → Reading α) : Prop where
  finish : read .finish = .pass
  fault : ∀ reason offset, read (.fault reason offset) = .faulty reason offset
  pass : ∀ t rest, t.isOneOf words = false → read (.next t rest) = .pass
  take : ∀ t rest, t.isOneOf words = true →
    ∃ r : Reading α, r ≠ .pass ∧ read (.next t rest) = r.behind t.stop

theorem OpensWith.map {α β : Type} {words : List Text} {read : Tokens → Reading α}
    (h : OpensWith words read) (f : α → β) : OpensWith words fun tokens => (read tokens).map f where
  finish := by rw [h.finish]; rfl
  fault reason offset := by rw [h.fault]; rfl
  pass t rest ht := by rw [h.pass t rest ht]; rfl
  take t rest ht := by
    obtain ⟨r, hr, hread⟩ := h.take t rest ht
    refine ⟨r.map f, Reading.map_ne_pass hr f, ?_⟩
    rw [hread]
    cases r <;> rfl

/-- A reader behind a word opens with that word. -/
theorem NeverPasses.opensWith {α : Type} {read : Tokens → Reading α} (h : NeverPasses read)
    (word : Text) : OpensWith [word] (MentionCommands.readWord word .pass read) where
  finish := rfl
  fault _ _ := rfl
  pass t rest ht := by
    rw [Token.isOneOf_singleton] at ht
    rw [MentionCommands.readWord, ht, if_neg Bool.false_ne_true]
  take t rest ht := by
    rw [Token.isOneOf_singleton] at ht
    exact ⟨read rest, h rest, by rw [MentionCommands.readWord, if_pos ht]⟩

/-- The word that opens a change of labels. -/
def relabelWords : List Text := ["modify".toList]

/-- The words that open an assignment. -/
def assignWords : List Text :=
  ["claim".toList, "release-assignment".toList, "assign".toList]

theorem opensWith_readRelabeling : OpensWith relabelWords readRelabeling :=
  NeverPasses.opensWith (neverPasses_readList.readWord (by simp [Reading.fail]) _) _

theorem opensWith_readAssignment : OpensWith assignWords readAssignment where
  finish := rfl
  fault _ _ := rfl
  pass t rest ht := by
    simp only [Token.isOneOf, assignWords, List.any_cons, List.any_nil, Bool.or_eq_false_iff] at ht
    obtain ⟨hclaim, hrelease, hassign, -⟩ := ht
    simp only [readAssignment, hclaim, hrelease, hassign, Bool.false_eq_true, if_false]
  take t rest ht := by
    simp only [Token.isOneOf, assignWords, List.any_cons, List.any_nil, Bool.or_eq_true] at ht
    simp only [readAssignment]
    split_ifs with hclaim hrelease hassign
    · exact ⟨_, neverPasses_readEnd .own rest, rfl⟩
    · exact ⟨_, neverPasses_readEnd .release rest, rfl⟩
    · exact ⟨_, neverPasses_readUser.readOptional _ rest, rfl⟩
    · rcases ht with h | h | h | h
      · exact absurd h hclaim
      · exact absurd h hrelease
      · exact absurd h hassign
      · cases h

/-! ## Attempts -/

section
variable {g : Grammar} {words : List Text} {read : Tokens → Reading Command} {s : TokenStream}

/-- An error behind which the stream has moved is a refusal, whatever its stage. -/
theorem verdict_of_moved {error : Diagnostic} {start position : Nat} (h : position ≠ start) :
    Parse.verdict start ⟨.error error, position⟩ = .rejected error :=
  if_neg fun h' => h h'.2

/-- A lexical error with the stream unmoved says nothing about the command. -/
theorem verdict_of_unmoved {error : Diagnostic} {start : Nat} (h : error.stage = .lexing) :
    Parse.verdict start ⟨.error error, start⟩ = .notMine :=
  if_pos ⟨h, rfl⟩

/-- A parse that reads something, and does not pass, is a claim. -/
theorem claimed_of_behind {r : Reading Command} {n : Nat} (hg : g.parse s = (r.behind n).parse s)
    (hr : r ≠ .pass) (hn : 0 < n) : (g.attempt s).claimed = true := by
  rw [Outcome.claimed, Grammar.attempt, hg]
  cases r with
  | pass => exact absurd rfl hr
  | accept => rfl
  | refuse refusal used =>
    have hmoved : s.position + (n + used) ≠ s.position := by omega
    simp only [Reading.behind, Reading.parse, TokenStream.restore, verdict_of_moved hmoved]
    rfl

theorem attempt_of_pass (hg : g.parse s = Reading.pass.parse s) :
    g.attempt s = ⟨g.kind, .notMine, s.position⟩ := by
  rw [Grammar.attempt, hg]
  rfl

/-- What a grammar makes of a stream whose first token cannot be cut off. -/
theorem attempt_of_faulty {reason : LexFault} {offset : Nat}
    (hg : g.parse s = (Reading.faulty reason offset).parse s) :
    g.attempt s = ⟨g.kind, .notMine, s.position⟩ := by
  rw [Grammar.attempt, hg]
  exact congrArg (Outcome.mk g.kind · s.position) (verdict_of_unmoved rfl)

/-- A grammar with a keyword either finds it and claims the command, or has read nothing. -/
theorem attempt_cases (hg : g.parse = parseTokens read) (h : OpensWith words read) :
    ((g.attempt s).claimed = true ∧
      ∃ t, Lexeme.ofText s.remaining = .token t ∧ t.isOneOf words = true) ∨
    (g.attempt s = ⟨g.kind, .notMine, s.position⟩ ∧
      ∀ t, Lexeme.ofText s.remaining = .token t → t.isOneOf words = false) := by
  have hparse : g.parse s = (read (Tokens.ofText s.remaining)).parse s := by rw [hg]; rfl
  cases hl : Lexeme.ofText s.remaining with
  | finished =>
    rw [Tokens.ofText_of_finished hl, h.finish] at hparse
    exact Or.inr ⟨attempt_of_pass hparse, nofun⟩
  | fault reason offset =>
    rw [Tokens.ofText_of_fault hl, h.fault] at hparse
    exact Or.inr ⟨attempt_of_faulty hparse, nofun⟩
  | token t =>
    rw [Tokens.ofText_of_token hl] at hparse
    cases ht : t.isOneOf words with
    | true =>
      obtain ⟨r, hr, hread⟩ := h.take t (Tokens.ofText (s.remaining.drop t.stop)) ht
      rw [hread] at hparse
      exact Or.inl ⟨claimed_of_behind hparse hr (Lexeme.stop_pos hl), t, rfl, ht⟩
    | false =>
      rw [h.pass _ _ ht] at hparse
      refine Or.inr ⟨attempt_of_pass hparse, ?_⟩
      rintro _ ⟨⟩
      exact ht

/-- **A grammar with a keyword claims a command just if the first token is the keyword.** -/
theorem attempt_claimed_iff (hg : g.parse = parseTokens read) (h : OpensWith words read) :
    (g.attempt s).claimed = true ↔ ∃ t, s.peek = .ok (some t) ∧ t.isOneOf words = true := by
  simp only [TokenStream.peek_eq_some_iff]
  rcases attempt_cases (s := s) hg h with ⟨hclaim, t, hl, ht⟩ | ⟨hattempt, hno⟩
  · exact ⟨fun _ => ⟨t.shift s.position, ⟨t, hl, rfl⟩, ht⟩, fun _ => hclaim⟩
  · constructor
    · intro hclaim
      rw [hattempt] at hclaim
      cases hclaim
    · rintro ⟨_, ⟨t, hl, rfl⟩, ht⟩
      rw [Token.isOneOf_shift, hno t hl] at ht
      cases ht

/-- **What a grammar with a keyword does not claim, it leaves unread.** -/
theorem position_attempt_of_not_claimed (hg : g.parse = parseTokens read)
    (h : OpensWith words read) (hclaim : (g.attempt s).claimed = false) :
    (g.attempt s).position = s.position := by
  rcases attempt_cases (s := s) hg h with ⟨hclaim', -⟩ | ⟨hattempt, -⟩
  · rw [hclaim] at hclaim'
    cases hclaim'
  · rw [hattempt]

end

/-! ## The built-in grammars -/

theorem relabelGrammar_claimed_iff {s : TokenStream} :
    (relabelGrammar.attempt s).claimed = true ↔
      ∃ t, s.peek = .ok (some t) ∧ t.isOneOf relabelWords = true :=
  attempt_claimed_iff rfl (opensWith_readRelabeling.map _)

theorem assignGrammar_claimed_iff {s : TokenStream} :
    (assignGrammar.attempt s).claimed = true ↔
      ∃ t, s.peek = .ok (some t) ∧ t.isOneOf assignWords = true :=
  attempt_claimed_iff rfl (opensWith_readAssignment.map _)

theorem position_of_not_claimed_of_mem_builtInGrammars {g : Grammar} (h : g ∈ builtInGrammars)
    {s : TokenStream} (hclaim : (g.attempt s).claimed = false) :
    (g.attempt s).position = s.position := by
  rcases List.mem_pair.1 h with rfl | rfl
  · exact position_attempt_of_not_claimed rfl (opensWith_readAssignment.map _) hclaim
  · exact position_attempt_of_not_claimed rfl (opensWith_readRelabeling.map _) hclaim

/-- **No two built-in grammars claim the same command.** -/
theorem claimed_exclusive {s : TokenStream} (h : (assignGrammar.attempt s).claimed = true) :
    (relabelGrammar.attempt s).claimed = false := by
  rw [Bool.eq_false_iff]
  intro h'
  obtain ⟨t, ht, hassign⟩ := assignGrammar_claimed_iff.1 h
  obtain ⟨t', ht', hrelabel⟩ := relabelGrammar_claimed_iff.1 h'
  cases ht.symm.trans ht'
  rw [Token.isOneOf_eq_false (by decide) hassign] at hrelabel
  cases hrelabel

end MentionCommands
