/-
  The language of changes of labels.

  * `Token.Writes`: the change that a token writes, by the sign in front of it;
  * `ListItem` and `Relabeling`: the tokens of a command, sorted by what they are for; `tokens`
    puts them in a row;
  * `Relabeling.Writes`: what the tokens must be to write changes, where a token that may be left
    out is there whenever it can be;
  * `recognizes_readChanges`: a list of changes is read from just such tokens, by induction on the
    changes; `recognizes_readRelabeling`: and so is a command;
  * `relabelGrammar_exact`: what the grammar matches, where it stops, and what it rejects.
-/
import MentionCommands.Proofs.Grammar.Language

namespace MentionCommands

/-! ## Changes -/

/-- A token writes a change: a quote adds its text, and a sign in front of a word says what happens
    to the label behind it. -/
inductive Token.Writes (t : Token) : LabelChange → Prop
  | quoted : t.kind = .quote → Writes t ⟨.add, unescape t.value⟩
  | added {label : Text} : t.kind = .word → t.value = '+' :: label → label ≠ [] →
      Writes t ⟨.add, label⟩
  | removed {label : Text} : t.kind = .word → t.value = '-' :: label → label ≠ [] →
      Writes t ⟨.remove, label⟩
  | bare {c : Char} {label : Text} : t.kind = .word → t.value = c :: label → c ≠ '+' → c ≠ '-' →
      Writes t ⟨.add, c :: label⟩

namespace Token

variable {t : Token} {c : LabelChange}

theorem writes_of_word (hkind : t.kind = .word) (h : t.change? = .ok c) : t.Writes c := by
  simp only [change?, hkind] at h
  cases hvalue : t.value with
  | nil => simp [hvalue, signedLabel] at h
  | cons sign label =>
    by_cases hplus : sign = '+'
    · subst hplus
      by_cases hlabel : label = []
      · simp [hvalue, signedLabel, hlabel] at h
      · simp only [hvalue, signedLabel, if_true, List.isEmpty_iff, if_neg hlabel] at h
        cases h
        exact .added hkind hvalue hlabel
    · by_cases hminus : sign = '-'
      · subst hminus
        by_cases hlabel : label = []
        · simp [hvalue, signedLabel, hlabel] at h
        · simp only [hvalue, signedLabel, if_neg hplus, if_true, List.isEmpty_iff,
            if_neg hlabel] at h
          cases h
          exact .removed hkind hvalue hlabel
      · have hc : ⟨.add, sign :: label⟩ = c := by
          simpa [hvalue, signedLabel, hplus, hminus] using h
        exact hc ▸ .bare hkind hvalue hplus hminus

theorem change?_eq_ok_iff : t.change? = .ok c ↔ t.Writes c := by
  constructor
  · intro h
    cases hkind : t.kind with
    | word => exact writes_of_word hkind h
    | quote =>
      simp only [change?, hkind] at h
      cases h
      exact .quoted hkind
    | dot | comma | semicolon | exclamation | question | colon | endOfLine =>
      simp [change?, hkind] at h
  · rintro (hkind | ⟨hkind, hvalue, hne⟩ | ⟨hkind, hvalue, hne⟩ | ⟨hkind, hvalue, hplus, hminus⟩)
    · simp [change?, hkind]
    · simp [change?, hkind, hvalue, signedLabel, hne]
    · simp [change?, hkind, hvalue, signedLabel, hne]
    · simp [change?, hkind, hvalue, signedLabel, hplus, hminus]

theorem writes_shift (n : Nat) : (t.shift n).Writes c ↔ t.Writes c := by
  rw [← change?_eq_ok_iff, ← change?_eq_ok_iff]
  rfl

/-- A token that closes a command writes no change. -/
theorem Writes.isEnd_eq_false (h : t.Writes c) : t.isEnd = false := by
  cases h with
  | quoted hkind | added hkind | removed hkind | bare hkind => simp [isEnd, hkind]

end Token

/-! ## Lists of changes -/

/-- A change in a list, and what parts it from the next one. -/
structure ListItem where
  change : Token
  comma : Option Token
  conjunction : Option Token

/-- The tokens of a change in a list. -/
def ListItem.tokens (i : ListItem) : List Token :=
  i.change :: (i.comma.toList ++ i.conjunction.toList)

/-- The tokens of a list of changes. -/
def listTokens (items : List ListItem) : List Token := items.flatMap ListItem.tokens

/-- What parts a change from the tokens behind it is taken whenever it can be: a comma, and the
    word `and`. -/
structure ListItem.Parts (i : ListItem) (behind : List Token) : Prop where
  comma : Fits (·.kind == .comma) i.comma (i.conjunction.toList ++ behind)
  conjunction : Fits (·.isTheWord "and".toList) i.conjunction behind

/-- Items in front of the token that closes a command write a list of changes. -/
inductive ListWrites (closing : Option Token) : List ListItem → List LabelChange → Prop
  | nil : ListWrites closing [] []
  | cons {i : ListItem} {items : List ListItem} {c : LabelChange} {cs : List LabelChange} :
      i.change.Writes c → i.Parts (listTokens items ++ closing.toList) →
      ListWrites closing items cs → ListWrites closing (i :: items) (c :: cs)

/-- The spellings of a list of changes, and of the end of the command. -/
def listSpelling (changes : List LabelChange) : Spelling := fun ts closing =>
  (∀ t ∈ closing, t.isEnd = true) ∧
    ∃ items, ts = listTokens items ∧ ListWrites closing items changes

/-- The spellings of the changes behind a change: first what parts them. -/
def partedSpelling (changes : List LabelChange) : Spelling :=
  .behindOptional (·.kind == .comma) fun _ =>
    .behindOptional (·.isTheWord "and".toList) fun _ => listSpelling changes

variable {changes : List LabelChange} {c : LabelChange} {s s' : TokenStream}

theorem listSpelling_nil : listSpelling [] = .ending := by
  funext ts closing
  refine propext ⟨?_, ?_⟩
  · rintro ⟨hend, _, rfl, hwrites⟩
    cases hwrites
    exact ⟨rfl, hend⟩
  · rintro ⟨rfl, hend⟩
    exact ⟨hend, [], rfl, .nil⟩

theorem listSpelling_cons :
    listSpelling (c :: changes) = (partedSpelling changes).behind (·.Writes c) := by
  funext ts closing
  refine propext ⟨?_, ?_⟩
  · rintro ⟨hend, items, rfl, hwrites⟩
    cases hwrites with
    | @cons i items _ _ hchange hparts hrest =>
      refine ⟨i.change, i.comma.toList ++ (i.conjunction.toList ++ listTokens items), ?_, hchange,
        i.comma, _, rfl, ?_, i.conjunction, _, rfl, ?_, hend, items, rfl, hrest⟩
      · simp [listTokens, ListItem.tokens]
      · rw [List.append_assoc]
        exact hparts.comma
      · exact hparts.conjunction
  · rintro ⟨t, _, rfl, ht, comma, _, rfl, hcomma, conjunction, _, rfl, hand, hend, items, rfl,
      hwrites⟩
    rw [List.append_assoc] at hcomma
    refine ⟨hend, ⟨t, comma, conjunction⟩ :: items, ?_, .cons ht ⟨hcomma, hand⟩ hwrites⟩
    simp [listTokens, ListItem.tokens]

/-! ### Reading a list -/

/-- Where a change or the end is due, a list of no changes is the end. -/
theorem accepts_nil_iff :
    s.Accepts (readChanges .conjunction) [] s' ↔
      s.next = .ok none ∧ s = s' ∨ ∃ t, s.next = .ok (some (t, s')) ∧ t.isEnd = true := by
  obtain ⟨hnext, hahead⟩ | ⟨_, _, hnext, hahead⟩ | ⟨k, hnext, hahead⟩ := s.next_cases
  · simp [TokenStream.Accepts, hnext, hahead, readChanges, ListPhase.allowsEnd, TokenStream.restore]
  · simp [TokenStream.Accepts, hnext, hahead, readChanges, Reading.faulty]
  · have hshift : (k.shift s.position).isEnd = k.isEnd := rfl
    by_cases hend : k.isEnd = true
    · simp [TokenStream.Accepts, hnext, hahead, readChanges_conjunction, hend, hshift]
    · simp only [TokenStream.Accepts, hnext, hahead, readChanges_conjunction, if_neg hend]
      cases k.change? with
      | error fault => simp [Reading.fail, hend, hshift]
      | ok c =>
        cases readChanges .change (s.restore (s.position + k.stop)).ahead <;>
          simp [Reading.map, Reading.behind, hend, hshift]

section
variable {phase : ListPhase} (hphase : phase = .opening ∨ phase = .conjunction)
include hphase

/-- Where a change is due, a token that writes one is read as that change. -/
theorem readChanges_of_writes {k : Token} (hk : k.Writes c) (rest : Tokens) :
    readChanges phase (.next k rest) =
      ((readChanges .change rest).map (c :: ·)).behind k.stop := by
  have hchange := Token.change?_eq_ok_iff.2 hk
  rcases hphase with rfl | rfl
  · rw [readChanges_opening, hchange]
  · rw [readChanges_conjunction, hk.isEnd_eq_false, if_neg Bool.false_ne_true, hchange]

/-- Where a change is due, a list of changes starts with a token that writes one. -/
theorem writes_of_accept {k : Token} {rest : Tokens} {used : Nat}
    (h : readChanges phase (.next k rest) = .accept (c :: changes) used) : k.Writes c := by
  cases hc : k.change? with
  | ok c' =>
    have hwrites := Token.change?_eq_ok_iff.1 hc
    rw [readChanges_of_writes hphase hwrites] at h
    cases hr : readChanges .change rest with
    | pass | refuse => simp [hr, Reading.map, Reading.behind] at h
    | accept others n =>
      simp only [hr, Reading.map, Reading.behind, Reading.accept.injEq, List.cons.injEq] at h
      exact h.1.1 ▸ hwrites
  | error fault =>
    rcases hphase with rfl | rfl
    · simp [readChanges_opening, hc, Reading.fail] at h
    · rw [readChanges_conjunction, hc] at h
      split at h
      · simp at h
      · simp [Reading.fail] at h

theorem accepts_cons_iff :
    s.Accepts (readChanges phase) (c :: changes) s' ↔
      ∃ t s₁, s.next = .ok (some (t, s₁)) ∧ t.Writes c ∧
        s₁.Accepts (readChanges .change) changes s' := by
  obtain ⟨hnext, hahead⟩ | ⟨_, _, hnext, hahead⟩ | ⟨k, hnext, hahead⟩ := s.next_cases
  · rcases hphase with rfl | rfl <;>
      simp [TokenStream.Accepts, hnext, hahead, readChanges, ListPhase.allowsEnd, Reading.fail]
  · simp [TokenStream.Accepts, hnext, hahead, readChanges, Reading.faulty]
  · by_cases hk : k.Writes c
    · have hread := readChanges_of_writes hphase hk (s.restore (s.position + k.stop)).ahead
      rw [← hahead] at hread
      rw [TokenStream.accepts_of_behind (fun tokens => (readChanges .change tokens).map (c :: ·))
        hread, TokenStream.accepts_map]
      simp [hnext, Token.writes_shift, hk]
    · constructor
      · rintro ⟨used, hread, -⟩
        rw [hahead] at hread
        exact absurd (writes_of_accept hphase hread) hk
      · rintro ⟨t, s₁, hnext', ht, -⟩
        cases hnext.symm.trans hnext'
        exact absurd ((Token.writes_shift _).1 ht) hk

/-- A change is read in front of the others. -/
theorem recognizes_cons (h : Recognizes (readChanges .change) changes (partedSpelling changes)) :
    Recognizes (readChanges phase) (c :: changes) (listSpelling (c :: changes)) := by
  rw [listSpelling_cons]
  exact h.behind fun _ _ => accepts_cons_iff hphase

end

/-- What parts changes is read in front of what is read behind it. -/
theorem recognizes_parted
    (h : Recognizes (readChanges .conjunction) changes (listSpelling changes)) :
    Recognizes (readChanges .change) changes (partedSpelling changes) := by
  have hcomma : readChanges .comma =
      readOptional (·.isTheWord "and".toList) (readChanges .conjunction) :=
    funext readChanges_comma
  have hchange : readChanges .change = readOptional (·.kind == .comma) (readChanges .comma) :=
    funext readChanges_change
  rw [hchange, hcomma]
  exact (h.readOptional fun _ _ => rfl).readOptional fun _ _ => rfl

/-- **Behind a change, a list is read from just its spellings.** -/
theorem recognizes_readChanges (changes : List LabelChange) :
    Recognizes (readChanges .conjunction) changes (listSpelling changes) := by
  -- on the changes, since the reader takes one at a time, and what parts it from the next one
  induction changes with
  | cons c changes ih => exact recognizes_cons (Or.inr rfl) (recognizes_parted ih)
  | nil =>
    rw [listSpelling_nil]
    exact .ending fun _ _ => accepts_nil_iff

/-- The spellings of a list that a command gives: it has changes, and none of them removes a label
    if the list is announced. -/
def announcedSpelling (announced : Bool) (changes : List LabelChange) : Spelling :=
  fun ts closing => (changes ≠ [] ∧ (announced = true → ∀ c ∈ changes, c.action ≠ .remove)) ∧
    listSpelling changes ts closing

theorem accepts_refuseRemovals_iff {read : Tokens → Reading (List LabelChange)}
    {announced : Bool} :
    s.Accepts (fun tokens => refuseRemovals announced (read tokens)) changes s' ↔
      (announced = true → ∀ c ∈ changes, c.action ≠ .remove) ∧ s.Accepts read changes s' := by
  simp only [TokenStream.Accepts]
  cases read s.ahead with
  | pass => simp [refuseRemovals]
  | refuse => simp [refuseRemovals]
  | accept given used =>
    have hany : (announced && given.any (·.action == .remove)) = true ↔
        ¬ (announced = true → ∀ c ∈ given, c.action ≠ .remove) := by
      simp
    by_cases hkeep : announced = true → ∀ c ∈ given, c.action ≠ .remove
    · rw [refuseRemovals, if_neg (hany.not_left.2 hkeep)]
      constructor
      · rintro ⟨_, ⟨⟩, hs'⟩
        exact ⟨hkeep, used, rfl, hs'⟩
      · exact And.right
    · rw [refuseRemovals, if_pos (hany.2 hkeep)]
      constructor
      · rintro ⟨_, ⟨⟩, -⟩
      · rintro ⟨hkeep', _, ⟨⟩, -⟩
        exact absurd hkeep' hkeep

theorem recognizes_opening (announced : Bool) (changes : List LabelChange) :
    Recognizes (fun tokens => refuseRemovals announced (readChanges .opening tokens)) changes
      (announcedSpelling announced changes) := by
  intro s s'
  rw [accepts_refuseRemovals_iff]
  cases changes with
  | nil =>
    constructor
    · rintro ⟨-, used, hread, -⟩
      exact absurd rfl (ne_nil_of_readChanges_opening hread)
    · rintro ⟨_, _, ⟨⟨hne, -⟩, -⟩, -⟩
      exact absurd rfl hne
  | cons c changes =>
    have hlist : Recognizes (readChanges .opening) (c :: changes) (listSpelling (c :: changes)) :=
      recognizes_cons (Or.inl rfl) (recognizes_parted (recognizes_readChanges changes))
    rw [hlist s s']
    constructor
    · rintro ⟨hkeep, ts, closing, hspelling, hcompletes⟩
      exact ⟨ts, closing, ⟨⟨List.cons_ne_nil c changes, hkeep⟩, hspelling⟩, hcompletes⟩
    · rintro ⟨ts, closing, ⟨⟨-, hkeep⟩, hspelling⟩, hcompletes⟩
      exact ⟨hkeep, ts, closing, hspelling, hcompletes⟩

/-! ## Commands -/

/-- The tokens of a change of labels, by what they are for. -/
structure Relabeling where
  keyword : Token
  noun : Token
  colon : Option Token
  announcement : Option Token
  secondColon : Option Token
  items : List ListItem
  closing : Option Token

namespace Relabeling

/-- The tokens of the list, and the one that closes it. -/
def list (r : Relabeling) : List Token := listTokens r.items ++ r.closing.toList

/-- The tokens behind the first colon. -/
def behindColon (r : Relabeling) : List Token :=
  r.announcement.toList ++ (r.secondColon.toList ++ r.list)

/-- All tokens in a row. -/
def tokens (r : Relabeling) : List Token :=
  r.keyword :: r.noun :: (r.colon.toList ++ r.behindColon)

/-- Tokens write changes of labels. -/
structure Writes (r : Relabeling) (changes : List LabelChange) : Prop where
  keyword : r.keyword.isTheWord "modify".toList = true
  noun : r.noun.isTheWord "labels".toList = true
  colon : Fits Token.isColon r.colon r.behindColon
  announcement : Fits (·.isTheWord "to".toList) r.announcement (r.secondColon.toList ++ r.list)
  secondColon : Fits Token.isColon r.secondColon r.list
  items_ne : r.items ≠ []
  items : ListWrites r.closing r.items changes
  /-- A list that is announced removes no label. -/
  keeps : r.announcement.isSome = true → ∀ c ∈ changes, c.action ≠ .remove
  closing : ∀ t ∈ r.closing, t.isEnd = true

/-- The tokens of a command stand next in a stream, and the text ends where none closes it. -/
def StandsIn (r : Relabeling) (s s' : TokenStream) : Prop :=
  s.Reads r.tokens s' ∧ (r.closing = none → s'.next = .ok none)

end Relabeling

/-- The spellings of a command. -/
def relabelSpelling (changes : List LabelChange) : Spelling :=
  .behind (·.isTheWord "modify".toList = true) <| .behind (·.isTheWord "labels".toList = true) <|
    .behindOptional Token.isColon fun _ =>
      .behindOptional (·.isTheWord "to".toList) fun announced =>
        .behindOptional Token.isColon fun _ => announcedSpelling announced changes

theorem recognizes_readRelabeling (changes : List LabelChange) :
    Recognizes readRelabeling changes (relabelSpelling changes) := by
  have hshift : ∀ (word : Text) (n : Nat) (t : Token),
      (t.shift n).isTheWord word = t.isTheWord word := fun _ _ _ => rfl
  have hcolon : ∀ (n : Nat) (t : Token), (t.shift n).isColon = t.isColon := fun _ _ => rfl
  have hlist : Recognizes readList changes _ :=
    (Recognizes.readDeciding (fun announced =>
      (recognizes_opening announced changes).readOptional hcolon) (hshift _)).readOptional hcolon
  have hnoun : Recognizes (readWord "labels".toList (.fail RelabelFault.missingLabels.reason)
      readList) changes _ := hlist.readWord (fun _ _ h => by cases h) _
  exact hnoun.readWord (fun _ _ h => by cases h) _

theorem ListWrites.eq_nil_iff {closing : Option Token} {items : List ListItem}
    (h : ListWrites closing items changes) : items = [] ↔ changes = [] := by
  cases h <;> simp

/-- **The tokens of a command are a spelling of it, sorted by what they are for.** -/
theorem exists_relabelSpelling_iff :
    (∃ ts closing, relabelSpelling changes ts closing ∧ s.Completes ts closing s') ↔
      ∃ r : Relabeling, r.Writes changes ∧ r.StandsIn s s' := by
  constructor
  · rintro ⟨_, closing, ⟨keyword, _, rfl, hkeyword, noun, _, rfl, hnoun, colon, _, rfl, hcolon,
      announcement, _, rfl, hto, secondColon, _, rfl, hsecond, ⟨hne, hkeeps⟩, hend, items, rfl,
      hitems⟩, hreads, hnone⟩
    simp only [List.append_assoc, List.cons_append] at hcolon hto hsecond hreads
    exact ⟨⟨keyword, noun, colon, announcement, secondColon, items, closing⟩,
      ⟨hkeyword, hnoun, hcolon, hto, hsecond, mt hitems.eq_nil_iff.1 hne, hitems, hkeeps, hend⟩,
      hreads, hnone⟩
  · rintro ⟨r, h, hreads, hnone⟩
    refine ⟨_, r.closing, ⟨r.keyword, _, rfl, h.keyword, r.noun, _, rfl, h.noun,
      r.colon, _, rfl, ?_, r.announcement, _, rfl, ?_, r.secondColon, _, rfl, ?_,
      ⟨mt h.items.eq_nil_iff.2 h.items_ne, h.keeps⟩, h.closing, r.items, rfl, h.items⟩, ?_, hnone⟩
    · simpa only [Relabeling.behindColon, Relabeling.list, List.append_assoc] using h.colon
    · simpa only [Relabeling.list, List.append_assoc] using h.announcement
    · exact h.secondColon
    · simpa only [Relabeling.tokens, Relabeling.behindColon, Relabeling.list, List.append_assoc,
        List.cons_append] using hreads

/-- **The grammar matches a command just if its tokens stand next, and rejects what starts with the
    keyword otherwise.** -/
theorem relabelGrammar_exact (s : TokenStream) :
    (∀ changes n,
      (relabelGrammar.attempt s).verdict = .matched (.relabel changes) ∧
        (relabelGrammar.attempt s).position = n ↔
      ∃ (r : Relabeling) (s' : TokenStream), r.Writes changes ∧ r.StandsIn s s' ∧
        r.tokens.getLast?.map Token.stop = some n) ∧
    ((∃ error, (relabelGrammar.attempt s).verdict = .rejected error) ↔
      (∃ t s₁, s.next = .ok (some (t, s₁)) ∧ t.isTheWord "modify".toList = true) ∧
        ¬ ∃ (r : Relabeling) (changes : List LabelChange) (s' : TokenStream),
          r.Writes changes ∧ r.StandsIn s s') := by
  have haccepts : ∀ changes s', s.Accepts readRelabeling changes s' ↔
      ∃ r : Relabeling, r.Writes changes ∧ r.StandsIn s s' := fun changes s' =>
    (recognizes_readRelabeling changes s s').trans exists_relabelSpelling_iff
  constructor
  · intro changes n
    rw [attempt_matched_iff (f := .relabel) rfl]
    constructor
    · rintro ⟨_, s', ⟨⟩, haccept, rfl⟩
      obtain ⟨r, hwrites, hstands⟩ := (haccepts changes s').1 haccept
      exact ⟨r, s', hwrites, hstands, hstands.1.position_eq (List.cons_ne_nil _ _)⟩
    · rintro ⟨r, s', hwrites, hstands, hlast⟩
      rw [hstands.1.position_eq (List.cons_ne_nil _ _)] at hlast
      exact ⟨changes, s', rfl, (haccepts changes s').2 ⟨r, hwrites, hstands⟩,
        Option.some.inj hlast⟩
  · rw [attempt_rejected_iff (f := .relabel) rfl, relabelGrammar_claimed_iff]
    refine and_congr ?_ (not_congr ?_)
    · simp only [TokenStream.peek_eq_some_iff_next, relabelWords, Token.isOneOf_singleton,
        exists_and_right]
    · simp only [haccepts]
      exact ⟨fun ⟨changes, s', r, h⟩ => ⟨r, changes, s', h⟩,
        fun ⟨r, changes, s', h⟩ => ⟨changes, s', r, h⟩⟩

/-- Of three `and` the second one parts, so the others are labels; and no label is removed behind
    `to`. -/
theorem relabelGrammar_exact_and :
    (∃ (r : Relabeling) (s' : TokenStream),
      r.Writes [⟨.add, "and".toList⟩, ⟨.add, "and".toList⟩, ⟨.remove, "x".toList⟩] ∧
        r.StandsIn (.ofText "modify labels: and and and, -x; y".toList 0) s' ∧
        r.tokens.getLast?.map Token.stop = some 31) ∧
    ¬ ∃ (r : Relabeling) (changes : List LabelChange) (s' : TokenStream),
      r.Writes changes ∧ r.StandsIn (.ofText "modify labels to: -x".toList 0) s' := by
  have hmatched : (relabelGrammar.attempt
      (.ofText "modify labels: and and and, -x; y".toList 0)).verdict = .matched (.relabel
        [⟨.add, "and".toList⟩, ⟨.add, "and".toList⟩, ⟨.remove, "x".toList⟩]) ∧
      (relabelGrammar.attempt
        (.ofText "modify labels: and and and, -x; y".toList 0)).position = 31 := by
    decide +kernel
  have hrejected : (relabelGrammar.attempt (.ofText "modify labels to: -x".toList 0)).verdict =
      .rejected (TokenStream.failure ⟨"modify labels to: -x".toList, 0, 17⟩
        RelabelFault.misleadingTo.reason) := by
    decide +kernel
  exact ⟨((relabelGrammar_exact _).1 _ _).1 hmatched,
    ((relabelGrammar_exact _).2.1 ⟨_, hrejected⟩).2⟩

end MentionCommands
