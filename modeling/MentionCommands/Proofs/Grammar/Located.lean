/-
  Where rejections are located.

  A grammar looks at the next token before it reads it, so it always stops behind whole tokens.  And
  it reports a fault only if that keeps the next token from being cut off, so the fault stands
  behind the place where the grammar stops, with nothing but blanks and the front of a word between
  them.

  * `LocatesIn read s`: what a reader refuses in a stream it refuses behind whole tokens, and for a
    lexical reason only in front of the fault that it reports; `LocatesIn.pass`, `LocatesIn.accept`,
    `LocatesIn.fail`, `LocatesIn.faulty` and `LocatesIn.behind` are the steps that a reader can
    make;
  * `Locates read`: it does so in every stream; `locates_readAssignment` and
    `locates_readRelabeling`: the readers of the built-in grammars do;
  * `RejectsAt words s error q`: a command that one of the words opens is rejected at `q`, behind
    whole tokens, with an error that is located there or at the fault that stands next;
    `rejection_located`: the built-in grammars reject so.
-/
import MentionCommands.Proofs.Grammar.Refusals
import MentionCommands.Proofs.Token.Faults
import MentionCommands.Proofs.Token.Tiling

namespace MentionCommands

section
variable {α β : Type} {read : Tokens → Reading α} {s s' : TokenStream}

/-! ## Readers that locate what they refuse -/

/-- What a reader refuses in a stream, it refuses behind whole tokens; and if the reason is lexical,
    it is the fault that keeps the next token from being cut off. -/
def LocatesIn (read : Tokens → Reading α) (s : TokenStream) : Prop :=
  ∀ refusal s', s.Refuses read refusal s' →
    (∃ ts, s.Reads ts s') ∧ (refusal.stage = .lexing → s'.next = .error (refusal.diagnostic s'))

/-- What a reader refuses in any stream is located there. -/
def Locates (read : Tokens → Reading α) : Prop := ∀ s, LocatesIn read s

namespace LocatesIn

theorem congr (read' : Tokens → Reading α) (hread : read s.ahead = read' s.ahead)
    (h : LocatesIn read' s) : LocatesIn read s := by
  intro refusal s' hrefuses
  rw [TokenStream.Refuses, hread] at hrefuses
  exact h refusal s' hrefuses

theorem pass (hread : read s.ahead = .pass) : LocatesIn read s := by
  rintro refusal s' ⟨used, hrefuse, -⟩
  cases hread.symm.trans hrefuse

theorem accept {a : α} {used : Nat} (hread : read s.ahead = .accept a used) :
    LocatesIn read s := by
  rintro refusal s' ⟨used, hrefuse, -⟩
  cases hread.symm.trans hrefuse

theorem fail {reason : Reason} (hread : read s.ahead = .fail reason) : LocatesIn read s := by
  rintro refusal s' ⟨used, hrefuse, rfl⟩
  cases hread.symm.trans hrefuse
  exact ⟨⟨[], .nil s⟩, nofun⟩

theorem faulty {reason : LexFault} {offset : Nat}
    (hnext : s.next = .error (s.lexicalFailure reason offset))
    (hread : read s.ahead = .faulty reason offset) : LocatesIn read s := by
  rintro refusal s' ⟨used, hrefuse, rfl⟩
  cases hread.symm.trans hrefuse
  exact ⟨⟨[], .nil s⟩, fun _ => hnext⟩

/-- A reader that reads a token locates what is refused behind the token. -/
theorem behind {k : Token} (read' : Tokens → Reading α)
    (hnext : s.next = .ok (some (k.shift s.position, s.restore (s.position + k.stop))))
    (hread : read s.ahead = (read' (s.restore (s.position + k.stop)).ahead).behind k.stop)
    (h : LocatesIn read' (s.restore (s.position + k.stop))) : LocatesIn read s := by
  rintro refusal s' ⟨used, hrefuse, rfl⟩
  rw [hread] at hrefuse
  cases hr : read' (s.restore (s.position + k.stop)).ahead with
  | pass | accept =>
    rw [hr] at hrefuse
    cases hrefuse
  | refuse refusal' used' =>
    rw [hr] at hrefuse
    cases hrefuse
    obtain ⟨⟨ts, hreads⟩, hlexical⟩ := h refusal _ ⟨used', hr, rfl⟩
    simp only [TokenStream.restore, Nat.add_assoc] at hreads hlexical hnext ⊢
    exact ⟨⟨_ :: ts, .cons hnext hreads⟩, hlexical⟩

theorem map (h : LocatesIn read s) (f : α → β) :
    LocatesIn (fun tokens => (read tokens).map f) s := by
  rintro refusal s' ⟨used, hrefuse, rfl⟩
  refine h refusal _ ⟨used, ?_, rfl⟩
  change (read s.ahead).map f = _ at hrefuse
  cases hr : read s.ahead with
  | pass | accept =>
    rw [hr] at hrefuse
    cases hrefuse
  | refuse =>
    rw [hr] at hrefuse
    cases hrefuse
    rfl

end LocatesIn

namespace Locates

theorem readWord (h : Locates read) {otherwise : Reading α}
    (ho : otherwise = .pass ∨ ∃ reason, otherwise = .fail reason) (word : Text) :
    Locates (readWord word otherwise read) := by
  intro s
  have hother (hread : MentionCommands.readWord word otherwise read s.ahead = otherwise) :
      LocatesIn (MentionCommands.readWord word otherwise read) s := by
    rcases ho with rfl | ⟨reason, rfl⟩
    · exact .pass hread
    · exact .fail hread
  obtain ⟨-, hahead⟩ | ⟨_, _, hnext, hahead⟩ | ⟨k, hnext, hahead⟩ := s.next_cases
  · exact hother (by rw [hahead]; rfl)
  · exact .faulty hnext (by rw [hahead]; rfl)
  · by_cases hk : k.isTheWord word = true
    · exact .behind read hnext (by rw [hahead, MentionCommands.readWord, if_pos hk]) (h _)
    · exact hother (by rw [hahead, MentionCommands.readWord, if_neg hk])

theorem readOptional (h : Locates read) (p : Token → Bool) : Locates (readOptional p read) := by
  intro s
  obtain ⟨-, hahead⟩ | ⟨_, _, -, hahead⟩ | ⟨k, hnext, hahead⟩ := s.next_cases
  · exact .congr read (by rw [hahead]; rfl) (h s)
  · exact .congr read (by rw [hahead]; rfl) (h s)
  · by_cases hk : p k = true
    · exact .behind read hnext (by rw [hahead, MentionCommands.readOptional, if_pos hk]) (h _)
    · exact .congr read (by rw [hahead, MentionCommands.readOptional, if_neg hk]) (h s)

end Locates

end

/-! ## The readers of assignments -/

theorem locates_readEnd (a : Assignment) : Locates (readEnd a) := by
  intro s
  obtain ⟨-, hahead⟩ | ⟨_, _, hnext, hahead⟩ | ⟨k, -, hahead⟩ := s.next_cases
  · exact .accept (by rw [hahead]; rfl)
  · exact .faulty hnext (by rw [hahead]; rfl)
  · by_cases hend : k.isEnd = true
    · exact .accept (by rw [hahead, readEnd, if_pos hend])
    · exact .fail (by rw [hahead, readEnd, if_neg hend])

theorem locates_readUser : Locates readUser := by
  intro s
  obtain ⟨-, hahead⟩ | ⟨_, _, hnext, hahead⟩ | ⟨k, hnext, hahead⟩ := s.next_cases
  · exact .fail (by rw [hahead]; rfl)
  · exact .faulty hnext (by rw [hahead]; rfl)
  · by_cases hend : k.isEnd = true
    · exact .fail (by rw [hahead, readUser, if_pos hend])
    · cases hname : mentionedUser? k with
      | none => exact .fail (by rw [hahead, readUser, if_neg hend, hname])
      | some name =>
        exact .behind (readEnd (.user name)) hnext (by rw [hahead, readUser, if_neg hend, hname])
          (locates_readEnd _ _)

theorem locates_readAssignment : Locates readAssignment := by
  intro s
  obtain ⟨-, hahead⟩ | ⟨_, _, hnext, hahead⟩ | ⟨k, hnext, hahead⟩ := s.next_cases
  · exact .pass (by rw [hahead]; rfl)
  · exact .faulty hnext (by rw [hahead]; rfl)
  · by_cases hclaim : k.isTheWord "claim".toList = true
    · exact .behind (readEnd .own) hnext (by rw [hahead, readAssignment, if_pos hclaim])
        (locates_readEnd _ _)
    by_cases hrelease : k.isTheWord "release-assignment".toList = true
    · exact .behind (readEnd .release) hnext
        (by rw [hahead, readAssignment, if_neg hclaim, if_pos hrelease]) (locates_readEnd _ _)
    by_cases hassign : k.isTheWord "assign".toList = true
    · exact .behind readAssignee hnext
        (by rw [hahead, readAssignment, if_neg hclaim, if_neg hrelease, if_pos hassign])
        (locates_readUser.readOptional _ _)
    · exact .pass
        (by rw [hahead, readAssignment, if_neg hclaim, if_neg hrelease, if_neg hassign])

/-! ## The readers of changes of labels -/

theorem locates_readChanges (phase : ListPhase) : Locates (readChanges phase) := by
  intro s
  -- on the tokens ahead, since each call reads one token and goes on in another phase
  induction hahead : s.ahead generalizing s phase with
  | finish =>
    by_cases hend : phase.allowsEnd = true
    · exact .accept (by rw [hahead, readChanges, if_pos hend])
    · exact .fail (by rw [hahead, readChanges, if_neg hend])
  | fault reason offset =>
    obtain ⟨-, hahead'⟩ | ⟨_, _, hnext, hahead'⟩ | ⟨_, -, hahead'⟩ := s.next_cases
    · cases hahead.symm.trans hahead'
    · exact .faulty hnext (by rw [hahead']; rfl)
    · cases hahead.symm.trans hahead'
  | next k rest ih =>
    obtain ⟨-, hahead'⟩ | ⟨_, _, -, hahead'⟩ | ⟨j, hnext, hahead'⟩ := s.next_cases
    · cases hahead.symm.trans hahead'
    · cases hahead.symm.trans hahead'
    cases hahead.symm.trans hahead'
    have hbehind (phase : ListPhase) :
        LocatesIn (readChanges phase) (s.restore (s.position + k.stop)) := ih phase _ rfl
    by_cases hcomma : (phase.allowsComma && k.kind == .comma) = true
    · exact .behind (readChanges .comma) hnext (by rw [hahead, readChanges, if_pos hcomma])
        (hbehind .comma)
    by_cases hand : (phase.allowsConjunction && k.isTheWord "and".toList) = true
    · exact .behind (readChanges .conjunction) hnext
        (by rw [hahead, readChanges, if_neg hcomma, if_pos hand]) (hbehind .conjunction)
    by_cases hend : (phase.allowsEnd && k.isEnd) = true
    · exact .accept (by rw [hahead, readChanges, if_neg hcomma, if_neg hand, if_pos hend])
    cases hchange : k.change? with
    | error fault =>
      exact .fail
        (by rw [hahead, readChanges, if_neg hcomma, if_neg hand, if_neg hend, hchange])
    | ok change =>
      exact .behind (fun tokens => (readChanges .change tokens).map (change :: ·)) hnext
        (by rw [hahead, readChanges, if_neg hcomma, if_neg hand, if_neg hend, hchange])
        ((hbehind .change).map _)

/-- A list that is refused as a whole is refused in front of it. -/
theorem locates_refuseRemovals {read : Tokens → Reading (List LabelChange)} (h : Locates read)
    (announced : Bool) : Locates fun tokens => refuseRemovals announced (read tokens) := by
  intro s
  cases hr : read s.ahead with
  | pass => exact .pass (by rw [hr]; rfl)
  | refuse => exact .congr read (by rw [hr]; rfl) (h s)
  | accept changes used =>
    by_cases hremoves : (announced && changes.any (·.action == .remove)) = true
    · exact .fail (by rw [hr, refuseRemovals, if_pos hremoves])
    · exact .accept (by rw [hr, refuseRemovals, if_neg hremoves])

theorem locates_readList : Locates readList := by
  refine Locates.readOptional (fun s => ?_) Token.isColon
  have hlist := locates_refuseRemovals (locates_readChanges .opening)
    (s.ahead.first?.any (·.isTheWord "to".toList))
  exact (hlist.readOptional Token.isColon).readOptional (·.isTheWord "to".toList) s

theorem locates_readRelabeling : Locates readRelabeling :=
  (locates_readList.readWord (Or.inr ⟨_, rfl⟩) _).readWord (Or.inl rfl) _

/-! ## Rejections -/

/-- A command that one of the words opens is rejected at the offset `q`: behind whole tokens, the
    first of which is the word; an error of the grammar is located there, and a lexical one is met
    there and located at the double quote that is at fault. -/
structure RejectsAt (words : List Text) (s : TokenStream) (error : Diagnostic) (q : Nat) :
    Prop where
  behindKeyword : ∃ k ts, s.Reads (k :: ts) (s.restore q) ∧ k.isOneOf words = true ∧ k.stop ≤ q
  inText : q ≤ s.text.length
  text : error.text = s.text
  grammar : error.stage = .grammar → error.position = q
  lexing : error.stage = .lexing → (s.restore q).next = .error error ∧
    ∃ fault, FaultAt s.text q fault error.position ∧ error.reason = fault.reason
  quote : error.stage = .lexing → q ≤ error.position ∧ error.position < s.text.length ∧
    s.text[error.position]? = some '"'

/-- What a stream reads ends in its text. -/
theorem TokenStream.Reads.position_le_length {s s' : TokenStream} {ts : List Token}
    (h : s.Reads ts s') (hne : ts ≠ []) : s'.position ≤ s.text.length := by
  induction h with
  | nil => exact absurd rfl hne
  | @cons s s₁ s' k ts hnext hrest ih =>
    cases hrest with
    | nil =>
      obtain ⟨j, hj, -, rfl⟩ := next_eq_some_iff.1 hnext
      have hlength := Lexeme.stop_le_length hj
      have hpos := Lexeme.stop_pos hj
      rw [remaining, List.length_drop] at hlength
      show s.position + j.stop ≤ s.text.length
      omega
    | cons =>
      rw [← text_of_next hnext]
      exact ih (List.cons_ne_nil _ _)

section
variable {α : Type} {g : Grammar} {words : List Text} {read : Tokens → Reading α}
  {f : α → Command} {s : TokenStream} {error : Diagnostic}

/-- What a reader with a keyword refuses in a stream whose first token is cut off and is the
    keyword, it refuses behind the keyword. -/
theorem OpensWith.stop_le_used {k : Token} {rest : Tokens} {refusal : Refusal} {used : Nat}
    (h : OpensWith words read) (hk : k.isOneOf words = true)
    (hrefuse : read (.next k rest) = .refuse refusal used) : k.stop ≤ used := by
  obtain ⟨r, -, hr⟩ := h.take k rest hk
  rw [hr] at hrefuse
  cases r with
  | pass | accept => cases hrefuse
  | refuse =>
    cases hrefuse
    exact Nat.le_add_right _ _

/-- A grammar with a keyword rejects behind the keyword, and behind whole tokens if its reader does
    so; an error of the grammar is located there, and a lexical one is met there. -/
theorem exists_reads_of_rejected (hg : g.parse = parseTokens fun tokens => (read tokens).map f)
    (hopens : OpensWith words read) (hlocates : Locates read)
    (h : (g.attempt s).verdict = .rejected error) :
    ∃ k ts, s.Reads (k :: ts) (s.restore (g.attempt s).position) ∧ k.isOneOf words = true ∧
      error.text = s.text ∧ (error.stage = .grammar → error.position = (g.attempt s).position) ∧
      (error.stage = .lexing → (s.restore (g.attempt s).position).next = .error error) := by
  have hclaim : (g.attempt s).claimed = true := by rw [Outcome.claimed, h]; rfl
  obtain ⟨k, hpeek, hk⟩ := (attempt_claimed_iff hg (hopens.map f)).1 hclaim
  obtain ⟨_, hnext⟩ := TokenStream.peek_eq_some_iff_next.1 hpeek
  obtain ⟨refusal, _, ⟨used, hrefuse, rfl⟩, rfl, hposition⟩ := exists_refusal_of_rejected hg h
  obtain ⟨⟨ts, hreads⟩, hlexical⟩ := hlocates s refusal _ ⟨used, hrefuse, rfl⟩
  rw [← hposition]
  refine ⟨k, ?_⟩
  cases ts with
  | nil =>
    -- a reader with a keyword has read that at least
    obtain ⟨hend, -⟩ | ⟨_, _, hfault, -⟩ | ⟨j, hnext', hahead⟩ := s.next_cases
    · cases hend.symm.trans hnext
    · cases hfault.symm.trans hnext
    cases hnext'.symm.trans hnext
    rw [hahead] at hrefuse
    have hused : j.stop ≤ used := hopens.stop_le_used (k := j) hk hrefuse
    have hmoved := (TokenStream.start_of_next hnext).2
    have hsame := congrArg TokenStream.position (TokenStream.reads_nil_iff.1 hreads)
    simp only [TokenStream.restore, Token.shift] at hmoved hsame
    omega
  | cons k' ts =>
    obtain ⟨_, hnext', -⟩ := TokenStream.reads_cons_iff.1 hreads
    cases hnext.symm.trans hnext'
    refine ⟨ts, hreads, hk, ?_⟩
    cases refusal with
    | lexical =>
      refine ⟨rfl, ?_, fun _ => hlexical rfl⟩
      rintro ⟨⟩
    | grammatical =>
      refine ⟨rfl, fun _ => rfl, ?_⟩
      rintro ⟨⟩

/-- **A grammar with a keyword rejects there**, if its reader locates what it refuses. -/
theorem rejectsAt_of_rejected (hg : g.parse = parseTokens fun tokens => (read tokens).map f)
    (hopens : OpensWith words read) (hlocates : Locates read)
    (h : (g.attempt s).verdict = .rejected error) :
    RejectsAt words s error (g.attempt s).position := by
  obtain ⟨k, ts, hreads, hk, htext, hgrammar, hlexing⟩ :=
    exists_reads_of_rejected hg hopens hlocates h
  have hfault (hstage : error.stage = .lexing) :
      ∃ fault, FaultAt s.text (g.attempt s).position fault error.position ∧
        error.reason = fault.reason := by
    obtain ⟨fault, i, hfault, rfl⟩ := TokenStream.next_eq_error_iff.1 (hlexing hstage)
    exact ⟨fault, hfault, rfl⟩
  refine ⟨⟨k, ts, hreads, hk, ?_⟩, hreads.position_le_length (List.cons_ne_nil _ _), htext,
    hgrammar, fun hstage => ⟨hlexing hstage, hfault hstage⟩, fun hstage => ?_⟩
  · obtain ⟨s₁, hnext, hrest⟩ := TokenStream.reads_cons_iff.1 hreads
    have hstop : some k.stop = some s₁.position :=
      (TokenStream.Reads.cons hnext (.nil s₁)).position_eq (List.cons_ne_nil _ _)
    rw [Option.some.inj hstop]
    exact hrest.position_le
  · obtain ⟨fault, hfault, -⟩ := hfault hstage
    exact ⟨hfault.le, hfault.lt_length, hfault.quote⟩

end

/-- The built-in grammars with the words that open their commands. -/
def builtInKeywords : List (Grammar × List Text) :=
  [(assignGrammar, assignWords), (relabelGrammar, relabelWords)]

/-- These are all the built-in grammars. -/
theorem map_fst_builtInKeywords : builtInKeywords.map Prod.fst = builtInGrammars := rfl

/-- **A built-in grammar rejects behind its keyword and behind whole tokens**: an error of the
    grammar is located there, and a lexical one at the double quote that keeps the next token from
    being cut off. -/
theorem rejection_located {g : Grammar} {words : List Text} {s : TokenStream} {error : Diagnostic}
    (hg : (g, words) ∈ builtInKeywords) (h : (g.attempt s).verdict = .rejected error) :
    RejectsAt words s error (g.attempt s).position := by
  rcases List.mem_pair.1 hg with heq | heq
  · cases heq
    exact rejectsAt_of_rejected rfl opensWith_readAssignment locates_readAssignment h
  · cases heq
    exact rejectsAt_of_rejected rfl opensWith_readRelabeling locates_readRelabeling h

/-- A quote in the second label: the command is rejected behind the first one, and the error is
    located at the quote. -/
theorem rejection_located_quote :
    (relabelGrammar, relabelWords) ∈ builtInKeywords ∧
    (relabelGrammar.attempt (.ofText "modify labels: +a b\"c".toList 0)).verdict =
      .rejected (.ofLexFault .quoteInWord "modify labels: +a b\"c".toList 19) ∧
    RejectsAt relabelWords (.ofText "modify labels: +a b\"c".toList 0)
      (.ofLexFault .quoteInWord "modify labels: +a b\"c".toList 19) 17 := by
  have hmem : (relabelGrammar, relabelWords) ∈ builtInKeywords := List.mem_pair.2 (Or.inr rfl)
  have hrejected : (relabelGrammar.attempt (.ofText "modify labels: +a b\"c".toList 0)).verdict =
      .rejected (.ofLexFault .quoteInWord "modify labels: +a b\"c".toList 19) := by
    decide +kernel
  have hposition :
      (relabelGrammar.attempt (.ofText "modify labels: +a b\"c".toList 0)).position = 17 := by
    decide +kernel
  have hlocated := rejection_located hmem hrejected
  rw [hposition] at hlocated
  exact ⟨hmem, hrejected, hlocated⟩

end MentionCommands
