/-
  The language of assignments.

  * `Assignment.Spells`: the tokens that write an assignment, where `NamesUser` are those that name
    a user;
  * `settles_readAssignment`: an assignment is read from just such tokens, by way of one lemma for
    each reader;
  * `assignGrammar_exact`: what the grammar matches, where it stops, what it rejects, and which
    rejections are lexical.
-/
import MentionCommands.Proofs.Grammar.Refusals

namespace MentionCommands

/-! ## Tokens -/

/-- A token mentions a user. -/
structure Token.Mentions (t : Token) (name : Text) : Prop where
  kind : t.kind = .word
  value : t.value = '@' :: name
  name_ne : name ≠ []

section
variable {t : Token} {name : Text}

theorem mentionedUser?_eq_some_iff : mentionedUser? t = some name ↔ t.Mentions name := by
  unfold mentionedUser?
  constructor
  · intro h
    split at h
    · rename_i hword
      split at h
      · rename_i c d name' hvalue
        split at h
        · rename_i hc
          cases h
          subst hc
          exact ⟨eq_of_beq hword, hvalue, List.cons_ne_nil d name'⟩
        · cases h
      · cases h
    · cases h
  · rintro ⟨hkind, hvalue, hne⟩
    obtain ⟨c, name, rfl⟩ := List.exists_cons_of_ne_nil hne
    have hword : t.isWord = true := beq_iff_eq.2 hkind
    rw [if_pos hword, hvalue]
    rfl

theorem Token.mentions_shift_iff {n : Nat} : (t.shift n).Mentions name ↔ t.Mentions name :=
  ⟨fun h => ⟨h.kind, h.value, h.name_ne⟩, fun h => ⟨h.kind, h.value, h.name_ne⟩⟩

theorem Token.Mentions.isTheWord_eq_false (h : t.Mentions name) {word : Text}
    (hword : word.head? ≠ some '@') : t.isTheWord word = false := by
  rw [isTheWord, h.value, Bool.and_eq_false_iff, beq_eq_false_iff_ne]
  right
  rintro rfl
  exact hword rfl

theorem Token.Mentions.isEnd_eq_false (h : t.Mentions name) : t.isEnd = false := by
  simp [isEnd, h.kind]

end

/-- Tokens name a user, behind a `to` or without one. -/
inductive NamesUser (name : Text) : List Token → Prop
  | plain {user : Token} : user.Mentions name → NamesUser name [user]
  | announced {announcement user : Token} : announcement.isTheWord "to".toList = true →
      user.Mentions name → NamesUser name [announcement, user]

/-- Tokens write an assignment. -/
inductive Assignment.Spells : Assignment → List Token → Prop
  | own {keyword : Token} : keyword.isTheWord "claim".toList = true → Spells .own [keyword]
  | release {keyword : Token} : keyword.isTheWord "release-assignment".toList = true →
      Spells .release [keyword]
  | user {keyword : Token} {name : Text} {ts : List Token} :
      keyword.isTheWord "assign".toList = true → NamesUser name ts →
      Spells (.user name) (keyword :: ts)

/-! ## Spellings -/

/-- What is left of an assignment that is decided: the end. -/
def endSpelling (b : Assignment) : Assignment → Spelling := fun a ts closing =>
  a = b ∧ Spelling.ending ts closing

/-- What is left behind `to`: a user. -/
def userSpelling : Assignment → Spelling := fun a ts closing =>
  (∃ name user, a = .user name ∧ ts = [user] ∧ user.Mentions name) ∧ ∀ t ∈ closing, t.isEnd = true

/-- What is left behind `assign`: a user, with a `to` or without. -/
def assigneeSpelling : Assignment → Spelling := fun a ts closing =>
  (∃ name, a = .user name ∧ NamesUser name ts) ∧ ∀ t ∈ closing, t.isEnd = true

/-- The spellings of an assignment. -/
def assignmentSpelling : Assignment → Spelling := fun a ts closing =>
  a.Spells ts ∧ ∀ t ∈ closing, t.isEnd = true

section
variable {t : Token} {name : Text}

theorem after_userSpelling (h : t.Mentions name) :
    after t userSpelling = endSpelling (.user name) := by
  refine after_eq fun a ts closing => ⟨?_, ?_⟩
  · rintro ⟨⟨name', user, rfl, hts, hmentions⟩, hclosing⟩
    cases hts
    cases h.value.symm.trans hmentions.value
    exact ⟨rfl, rfl, hclosing⟩
  · rintro ⟨rfl, rfl, hclosing⟩
    exact ⟨⟨name, t, rfl, rfl, h⟩, hclosing⟩

theorem after_assigneeSpelling (h : t.Mentions name) :
    after t assigneeSpelling = endSpelling (.user name) := by
  refine after_eq fun a ts closing => ⟨?_, ?_⟩
  · rintro ⟨⟨name', rfl, hnames⟩, hclosing⟩
    cases hnames with
    | plain hmentions =>
      cases h.value.symm.trans hmentions.value
      exact ⟨rfl, rfl, hclosing⟩
    | announced hto _ =>
      rw [h.isTheWord_eq_false (by decide)] at hto
      cases hto
  · rintro ⟨rfl, rfl, hclosing⟩
    exact ⟨⟨name, rfl, .plain h⟩, hclosing⟩

theorem after_assigneeSpelling_of_to (h : t.isTheWord "to".toList = true) :
    after t assigneeSpelling = userSpelling := by
  refine after_eq fun a ts closing => ⟨?_, ?_⟩
  · rintro ⟨⟨name, rfl, hnames⟩, hclosing⟩
    cases hnames with
    | plain hmentions =>
      rw [hmentions.isTheWord_eq_false (by decide)] at h
      cases h
    | announced _ hmentions => exact ⟨⟨name, _, rfl, rfl, hmentions⟩, hclosing⟩
  · rintro ⟨⟨name, user, rfl, rfl, hmentions⟩, hclosing⟩
    exact ⟨⟨name, rfl, .announced h hmentions⟩, hclosing⟩

/-- One word does not open two kinds of assignment. -/
theorem after_assignmentSpelling_of_claim (h : t.isTheWord "claim".toList = true) :
    after t assignmentSpelling = endSpelling .own := by
  refine after_eq fun a ts closing => ⟨?_, ?_⟩
  · rintro ⟨hspells, hclosing⟩
    cases hspells with
    | own => exact ⟨rfl, rfl, hclosing⟩
    | release h' => exact absurd (Token.eq_of_isTheWord h h') (by decide)
    | user h' => exact absurd (Token.eq_of_isTheWord h h') (by decide)
  · rintro ⟨rfl, rfl, hclosing⟩
    exact ⟨.own h, hclosing⟩

theorem after_assignmentSpelling_of_release (h : t.isTheWord "release-assignment".toList = true) :
    after t assignmentSpelling = endSpelling .release := by
  refine after_eq fun a ts closing => ⟨?_, ?_⟩
  · rintro ⟨hspells, hclosing⟩
    cases hspells with
    | own h' => exact absurd (Token.eq_of_isTheWord h h') (by decide)
    | release => exact ⟨rfl, rfl, hclosing⟩
    | user h' => exact absurd (Token.eq_of_isTheWord h h') (by decide)
  · rintro ⟨rfl, rfl, hclosing⟩
    exact ⟨.release h, hclosing⟩

theorem after_assignmentSpelling_of_assign (h : t.isTheWord "assign".toList = true) :
    after t assignmentSpelling = assigneeSpelling := by
  refine after_eq fun a ts closing => ⟨?_, ?_⟩
  · rintro ⟨hspells, hclosing⟩
    cases hspells with
    | own h' => exact absurd (Token.eq_of_isTheWord h h') (by decide)
    | release h' => exact absurd (Token.eq_of_isTheWord h h') (by decide)
    | user _ hnames => exact ⟨⟨_, rfl, hnames⟩, hclosing⟩
  · rintro ⟨⟨name, rfl, hnames⟩, hclosing⟩
    exact ⟨.user h hnames, hclosing⟩

end

/-! ## Reading -/

section
variable {s s' : TokenStream} {a b : Assignment}

theorem accepts_readEnd_iff : s.Accepts (readEnd a) a s' ↔
    s.next = .ok none ∧ s = s' ∨ ∃ t, s.next = .ok (some (t, s')) ∧ t.isEnd = true := by
  obtain ⟨hnext, hahead⟩ | ⟨_, _, hnext, hahead⟩ | ⟨k, hnext, hahead⟩ := s.next_cases
  · simp [TokenStream.Accepts, hnext, hahead, readEnd, TokenStream.restore]
  · simp [TokenStream.Accepts, hnext, hahead, readEnd, Reading.faulty]
  · have hshift : (k.shift s.position).isEnd = k.isEnd := rfl
    by_cases hend : k.isEnd = true
    · simp [TokenStream.Accepts, hnext, hahead, readEnd, hend, hshift]
    · simp [TokenStream.Accepts, hnext, hahead, readEnd, hend, hshift, Reading.fail]

theorem eq_of_accepts_readEnd (h : s.Accepts (readEnd b) a s') : a = b := by
  obtain ⟨used, haccept, -⟩ := h
  cases hahead : s.ahead with
  | finish =>
    rw [hahead] at haccept
    cases haccept
    rfl
  | fault =>
    rw [hahead] at haccept
    cases haccept
  | next t rest =>
    rw [hahead, readEnd] at haccept
    split at haccept
    · cases haccept
      rfl
    · cases haccept

theorem opens_endSpelling (b : Assignment) : Opens (endSpelling b) [] :=
  ⟨b, [], none, rfl, rfl, nofun⟩

theorem settles_readEnd (b : Assignment) (s : TokenStream) :
    Settles (readEnd b) (endSpelling b) s := by
  have hrecognizes : Recognizes (readEnd b) b .ending := .ending fun _ _ => accepts_readEnd_iff
  have haccepts : ∀ a s', s.Accepts (readEnd b) a s' ↔
      ∃ ts closing, endSpelling b a ts closing ∧ s.Completes ts closing s' := by
    intro a s'
    constructor
    · intro haccepts
      obtain rfl := eq_of_accepts_readEnd haccepts
      obtain ⟨ts, closing, hending, hcompletes⟩ := (hrecognizes s s').1 haccepts
      exact ⟨ts, closing, ⟨rfl, hending⟩, hcompletes⟩
    · rintro ⟨ts, closing, ⟨rfl, hending⟩, hcompletes⟩
      exact (hrecognizes s s').2 ⟨ts, closing, hending, hcompletes⟩
  obtain ⟨-, hahead⟩ | ⟨reason, offset, hnext, hahead⟩ | ⟨k, hnext, hahead⟩ := s.next_cases
  · have hread : readEnd b s.ahead = .accept b 0 := by rw [hahead, readEnd]
    exact .accept hread haccepts
  · have hread : readEnd b s.ahead = .faulty reason offset := by rw [hahead, readEnd]
    exact .faulty hnext hread (opens_endSpelling b)
  · by_cases hend : k.isEnd = true
    · have hread : readEnd b s.ahead = .accept b k.stop := by rw [hahead, readEnd, if_pos hend]
      exact .accept hread haccepts
    · have hread : readEnd b s.ahead = .fail AssignFault.trailingWords.reason := by
        rw [hahead, readEnd, if_neg hend]
      refine .fail (TokenStream.peek_of_next hnext) hread (opens_endSpelling b) ?_
      rintro (⟨a, behind, closing, -, hnil, -⟩ | ⟨a, -, -, hclosing⟩)
      · cases hnil
      · exact hend (hclosing (k.shift s.position) rfl)

/-- Where a user is due and nothing else, a user is read, and then the end. -/
theorem settles_readUser_of {spelling : Assignment → Spelling} (hopens : Opens spelling [])
    (hnil : ∀ a closing, ¬ spelling a [] closing)
    (hafter : ∀ t name, t.Mentions name → after t spelling = endSpelling (.user name))
    (hfirst : ∀ t, s.peek = .ok (some t) → Opens spelling [t] → ∃ name, t.Mentions name) :
    Settles readUser spelling s := by
  obtain ⟨hnext, hahead⟩ | ⟨reason, offset, hnext, hahead⟩ | ⟨k, hnext, hahead⟩ := s.next_cases
  · have hread : readUser s.ahead = .fail AssignFault.missingUser.reason := by rw [hahead, readUser]
    refine .fail (TokenStream.peek_eq_none_iff.2 hnext) hread hopens ?_
    rintro ⟨a, hspelling⟩
    exact hnil a none hspelling
  · have hread : readUser s.ahead = .faulty reason offset := by rw [hahead, readUser]
    exact .faulty hnext hread hopens
  · have hpeek := TokenStream.peek_of_next hnext
    cases hmention : mentionedUser? k with
    | some name =>
      have hk := mentionedUser?_eq_some_iff.1 hmention
      refine .behind (readEnd (.user name)) hnext ?_ hnil
        (hafter _ name (Token.mentions_shift_iff.2 hk)) (settles_readEnd _ _)
      rw [hahead, readUser, hk.isEnd_eq_false, if_neg Bool.false_ne_true, hmention]
    | none =>
      have hstuck : ¬ GoesOn spelling [] (some (k.shift s.position)) := by
        rintro (hstart | ⟨a, hspelling⟩)
        · obtain ⟨name, hk⟩ := hfirst _ hpeek hstart
          have hsome := mentionedUser?_eq_some_iff.2 (Token.mentions_shift_iff.1 hk)
          cases hmention.symm.trans hsome
        · exact hnil a _ hspelling
      by_cases hend : k.isEnd = true
      · have hread : readUser s.ahead = .fail AssignFault.missingUser.reason := by
          rw [hahead, readUser, if_pos hend]
        exact .fail hpeek hread hopens hstuck
      · have hread : readUser s.ahead = .fail AssignFault.unmentionedUser.reason := by
          rw [hahead, readUser, if_neg hend, hmention]
        exact .fail hpeek hread hopens hstuck

/-- A token that is a mention. -/
theorem exists_mentions : ∃ t : Token, t.Mentions "u".toList :=
  ⟨⟨.word, 0, "@u".toList⟩, rfl, rfl, by decide⟩

theorem settles_readUser (s : TokenStream) : Settles readUser userSpelling s := by
  refine settles_readUser_of ?_ ?_ (fun _ _ => after_userSpelling) ?_
  · obtain ⟨t, ht⟩ := exists_mentions
    exact ⟨_, [t], none, ⟨_, t, rfl, rfl, ht⟩, nofun⟩
  · rintro _ _ ⟨⟨_, _, -, hts, -⟩, -⟩
    cases hts
  · rintro t - ⟨a, _, _, ⟨name, user, -, hts, hmentions⟩, -⟩
    cases hts
    exact ⟨name, hmentions⟩

theorem settles_readAssignee (s : TokenStream) : Settles readAssignee assigneeSpelling s := by
  have hopens : Opens assigneeSpelling [] := by
    obtain ⟨t, ht⟩ := exists_mentions
    exact ⟨_, [t], none, ⟨_, rfl, .plain ht⟩, nofun⟩
  have hnil : ∀ a closing, ¬ assigneeSpelling a [] closing := by
    rintro _ _ ⟨⟨_, -, hnames⟩, -⟩
    cases hnames
  -- a `to` decides whether the language has one left
  have hwithout (hread : readAssignee s.ahead = readUser s.ahead)
      (hto : ∀ t, s.peek = .ok (some t) → t.isTheWord "to".toList = false) :
      Settles readAssignee assigneeSpelling s := by
    refine .congr readUser hread (settles_readUser_of hopens hnil ?_ ?_)
    · exact fun _ _ => after_assigneeSpelling
    · rintro t hpeek ⟨_, _, _, ⟨name, -, hnames⟩, -⟩
      cases hnames with
      | plain hmentions => exact ⟨name, hmentions⟩
      | announced hannounced =>
        rw [hto t hpeek] at hannounced
        cases hannounced
  obtain ⟨hnext, hahead⟩ | ⟨_, _, hnext, hahead⟩ | ⟨k, hnext, hahead⟩ := s.next_cases
  · refine hwithout (by rw [hahead]; rfl) fun t hpeek => ?_
    cases (TokenStream.peek_eq_none_iff.2 hnext).symm.trans hpeek
  · refine hwithout (by rw [hahead]; rfl) fun t hpeek => ?_
    obtain ⟨s₁, hnext'⟩ := TokenStream.peek_eq_some_iff_next.1 hpeek
    cases hnext.symm.trans hnext'
  · by_cases hto : k.isTheWord "to".toList = true
    · refine .behind readUser hnext ?_ hnil (after_assigneeSpelling_of_to hto) (settles_readUser _)
      rw [hahead, readAssignee, readOptional, if_pos hto]
    · refine hwithout ?_ fun t hpeek => ?_
      · rw [hahead, readAssignee, readOptional, if_neg hto]
      · cases (TokenStream.peek_of_next hnext).symm.trans hpeek
        exact Bool.eq_false_iff.2 hto

/-- **An assignment is read from just its spellings.** -/
theorem settles_readAssignment (s : TokenStream) :
    Settles readAssignment assignmentSpelling s := by
  have hnil : ∀ a closing, ¬ assignmentSpelling a [] closing := by
    rintro _ _ ⟨hspells, -⟩
    cases hspells
  have hopens : Opens assignmentSpelling [] :=
    ⟨.own, [⟨.word, 0, "claim".toList⟩], none, .own (by decide), nofun⟩
  obtain ⟨hnext, hahead⟩ | ⟨reason, offset, hnext, hahead⟩ | ⟨k, hnext, hahead⟩ := s.next_cases
  · refine .pass (by rw [hahead, readAssignment]) fun next hpeek => ?_
    cases (TokenStream.peek_eq_none_iff.2 hnext).symm.trans hpeek
    rintro ⟨a, hspelling⟩
    exact hnil a none hspelling
  · have hread : readAssignment s.ahead = .faulty reason offset := by rw [hahead, readAssignment]
    exact .faulty hnext hread hopens
  · by_cases hclaim : k.isTheWord "claim".toList = true
    · refine .behind (readEnd .own) hnext ?_ hnil (after_assignmentSpelling_of_claim hclaim)
        (settles_readEnd _ _)
      rw [hahead, readAssignment, if_pos hclaim]
    by_cases hrelease : k.isTheWord "release-assignment".toList = true
    · refine .behind (readEnd .release) hnext ?_ hnil (after_assignmentSpelling_of_release hrelease)
        (settles_readEnd _ _)
      rw [hahead, readAssignment, if_neg hclaim, if_pos hrelease]
    by_cases hassign : k.isTheWord "assign".toList = true
    · refine .behind readAssignee hnext ?_ hnil (after_assignmentSpelling_of_assign hassign)
        (settles_readAssignee _)
      rw [hahead, readAssignment, if_neg hclaim, if_neg hrelease, if_pos hassign]
    have hread : readAssignment s.ahead = .pass := by
      rw [hahead, readAssignment, if_neg hclaim, if_neg hrelease, if_neg hassign]
    refine .pass hread fun next hpeek => ?_
    cases (TokenStream.peek_of_next hnext).symm.trans hpeek
    rintro (⟨_, _, _, hspells, -⟩ | ⟨a, hspelling⟩)
    · cases hspells with
      | own h => exact hclaim h
      | release h => exact hrelease h
      | user h => exact hassign h
    · exact hnil a _ hspelling

end

/-! ## The grammar -/

/-- An assignment is never written without a token. -/
theorem Assignment.Spells.ne_nil {a : Assignment} {ts : List Token} (h : a.Spells ts) :
    ts ≠ [] := by
  cases h <;> exact List.cons_ne_nil _ _

/-- **The grammar matches an assignment just if its tokens stand next, and rejects what starts with
    a keyword otherwise.**  A rejection is decided where the tokens cease to start an assignment,
    and it is lexical just if no token can be cut off there. -/
theorem assignGrammar_exact (s : TokenStream) :
    (∀ c n,
      (assignGrammar.attempt s).verdict = .matched c ∧ (assignGrammar.attempt s).position = n ↔
      ∃ (a : Assignment) (ts : List Token) (closing : Option Token) (s' : TokenStream),
        c = .assign a ∧ a.Spells ts ∧ (∀ t ∈ closing, t.isEnd = true) ∧
        s.Completes ts closing s' ∧
        (ts ++ closing.toList).getLast?.map Token.stop = some n) ∧
    ((∃ error, (assignGrammar.attempt s).verdict = .rejected error) ↔
      (∃ t s₁, s.next = .ok (some (t, s₁)) ∧ t.isOneOf assignWords = true) ∧
        ¬ ∃ (a : Assignment) (ts : List Token) (closing : Option Token) (s' : TokenStream),
          a.Spells ts ∧ (∀ t ∈ closing, t.isEnd = true) ∧ s.Completes ts closing s') ∧
    ∀ error, (assignGrammar.attempt s).verdict = .rejected error →
      ∃ s', s.StuckAt assignmentSpelling s' ∧
        (∀ s'', s.StuckAt assignmentSpelling s'' → s'' = s') ∧
        s'.position = (assignGrammar.attempt s).position ∧
        (error.stage = .lexing ↔ ∃ fault, s'.peek = .error fault) := by
  have hsettles := settles_readAssignment s
  refine ⟨fun c n => ?_, ?_, fun error herror => ?_⟩
  · rw [attempt_matched_iff (f := .assign) rfl]
    constructor
    · rintro ⟨a, s', rfl, haccepts, rfl⟩
      obtain ⟨ts, closing, ⟨hspells, hend⟩, hcompletes⟩ := (hsettles.accepts a s').1 haccepts
      exact ⟨a, ts, closing, s', rfl, hspells, hend, hcompletes,
        hcompletes.1.position_eq (List.append_ne_nil_of_left_ne_nil hspells.ne_nil _)⟩
    · rintro ⟨a, ts, closing, s', rfl, hspells, hend, hcompletes, hlast⟩
      rw [hcompletes.1.position_eq (List.append_ne_nil_of_left_ne_nil hspells.ne_nil _)] at hlast
      exact ⟨a, s', rfl, (hsettles.accepts a s').2 ⟨ts, closing, ⟨hspells, hend⟩, hcompletes⟩,
        Option.some.inj hlast⟩
  · rw [attempt_rejected_iff (f := .assign) rfl, assignGrammar_claimed_iff]
    refine and_congr ?_ (not_congr ?_)
    · simp only [TokenStream.peek_eq_some_iff_next, exists_and_right]
    · simp only [hsettles.accepts]
      exact ⟨fun ⟨a, s', ts, closing, h, hcompletes⟩ => ⟨a, ts, closing, s', h.1, h.2, hcompletes⟩,
        fun ⟨a, ts, closing, s', h, hend, hcompletes⟩ =>
          ⟨a, s', ts, closing, ⟨h, hend⟩, hcompletes⟩⟩
  · obtain ⟨refusal, s', hrefuses, rfl, hposition⟩ :=
      exists_refusal_of_rejected (f := .assign) rfl herror
    obtain ⟨hstuck, hstage⟩ := hsettles.refuses refusal s' hrefuses
    refine ⟨s', hstuck, fun s'' hstuck' => hstuck'.unique hstuck, hposition, ?_⟩
    rw [Refusal.stage_diagnostic, hstage]

/-- A user may be called `to`; and behind `to` a quote without an end decides about the command. -/
theorem assignGrammar_exact_to :
    (∃ (a : Assignment) (ts : List Token) (closing : Option Token) (s' : TokenStream),
      .assign (.user "to".toList) = Command.assign a ∧ a.Spells ts ∧
        (∀ t ∈ closing, t.isEnd = true) ∧
        (TokenStream.ofText "assign to @to\n\nto".toList 0).Completes ts closing s' ∧
        (ts ++ closing.toList).getLast?.map Token.stop = some 15) ∧
    ∃ s', (TokenStream.ofText "assign to \"@to".toList 0).StuckAt assignmentSpelling s' ∧
      s'.position = (assignGrammar.attempt (.ofText "assign to \"@to".toList 0)).position ∧
      ∃ fault, s'.peek = .error fault := by
  have hmatched : (assignGrammar.attempt (.ofText "assign to @to\n\nto".toList 0)).verdict =
        .matched (.assign (.user "to".toList)) ∧
      (assignGrammar.attempt (.ofText "assign to @to\n\nto".toList 0)).position = 15 := by
    decide +kernel
  have hrejected : (assignGrammar.attempt (.ofText "assign to \"@to".toList 0)).verdict =
      .rejected
        (TokenStream.lexicalFailure ⟨"assign to \"@to".toList, 0, 9⟩ .unterminatedString 1) := by
    decide +kernel
  obtain ⟨s', hstuck, -, hposition, hlexical⟩ := (assignGrammar_exact _).2.2 _ hrejected
  exact ⟨((assignGrammar_exact _).1 _ _).1 hmatched, s', hstuck, hposition, hlexical.1 rfl⟩

end MentionCommands
