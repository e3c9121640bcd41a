/-
  Languages of readers: the tokens from which a reader makes a value.

  A spelling is a set of token lists.  The token that closes a command is kept apart, since the end
  of the text may stand for it.  What a reader takes from a stream is then a matter of tokens alone:
  how long they are, and what the text says behind them, shows no more.

  * `TokenStream.Reads`: tokens stand next in a stream, one after another;
  * `TokenStream.Accepts`: a reader makes a value of what stands next, and stops behind it;
  * `Recognizes read a spelling`: the reader makes `a` of just the streams that go on with tokens of
    the spelling;
  * `Recognizes.ending`, `Recognizes.behind`, `Recognizes.readWord` and `Recognizes.readOptional`:
    the spellings of readers that are built from others;
  * `attempt_matched_iff`: what grammars make of streams that their readers accept.
-/
import MentionCommands.Proofs.Grammar.Keyword

namespace MentionCommands

/-! ## Tokens of a stream -/

namespace TokenStream

/-- Tokens stand next in a stream, and another stream goes on behind the last of them. -/
inductive Reads : TokenStream → List Token → TokenStream → Prop
  | nil (s : TokenStream) : Reads s [] s
  | cons {s s' s'' : TokenStream} {t : Token} {ts : List Token}
      (hnext : s.next = .ok (some (t, s'))) (hrest : Reads s' ts s'') : Reads s (t :: ts) s''

/-- Tokens stand next, then one that closes the command or the end of the text. -/
def Completes (s : TokenStream) (ts : List Token) (closing : Option Token) (s' : TokenStream) :
    Prop :=
  s.Reads (ts ++ closing.toList) s' ∧ (closing = none → s'.next = .ok none)

variable {s s' : TokenStream} {t : Token} {ts : List Token} {closing : Option Token}

theorem reads_nil_iff : s.Reads [] s' ↔ s = s' :=
  ⟨fun h => by cases h; rfl, fun h => h ▸ .nil s⟩

theorem reads_cons_iff :
    s.Reads (t :: ts) s' ↔ ∃ s₁, s.next = .ok (some (t, s₁)) ∧ s₁.Reads ts s' :=
  ⟨fun h => by cases h with | cons hnext hrest => exact ⟨_, hnext, hrest⟩,
    fun ⟨_, hnext, hrest⟩ => .cons hnext hrest⟩

theorem completes_cons_iff :
    s.Completes (t :: ts) closing s' ↔
      ∃ s₁, s.next = .ok (some (t, s₁)) ∧ s₁.Completes ts closing s' := by
  simp only [Completes, List.cons_append, reads_cons_iff]
  exact ⟨fun ⟨⟨s₁, hnext, hreads⟩, hend⟩ => ⟨s₁, hnext, hreads, hend⟩,
    fun ⟨s₁, hnext, hreads, hend⟩ => ⟨⟨s₁, hnext, hreads⟩, hend⟩⟩

/-- A stream that completes a command without a token is at its end. -/
theorem next_of_completes_nil (h : s.Completes [] none s') : s = s' ∧ s.next = .ok none := by
  obtain ⟨hreads, hend⟩ := h
  obtain rfl := reads_nil_iff.1 hreads
  exact ⟨rfl, hend rfl⟩

/-- A stream is at its end, or before a fault, or before a token. -/
theorem next_cases (s : TokenStream) :
    (s.next = .ok none ∧ s.ahead = .finish) ∨
    (∃ reason offset, s.next = .error (s.lexicalFailure reason offset) ∧
      s.ahead = .fault reason offset) ∨
    ∃ k, s.next = .ok (some (k.shift s.position, s.restore (s.position + k.stop))) ∧
      s.ahead = .next k (s.restore (s.position + k.stop)).ahead := by
  cases hl : Lexeme.ofText s.remaining with
  | finished => exact Or.inl ⟨by rw [next, hl], Tokens.ofText_of_finished hl⟩
  | fault reason offset =>
    exact Or.inr (Or.inl ⟨reason, offset, by rw [next, hl], Tokens.ofText_of_fault hl⟩)
  | token k =>
    refine Or.inr (Or.inr ⟨k, by rw [next, hl], ?_⟩)
    rw [ahead, Tokens.ofText_of_token hl, remaining, List.drop_drop]
    rfl

theorem peek_eq_some_iff_next : s.peek = .ok (some t) ↔ ∃ s₁, s.next = .ok (some (t, s₁)) := by
  rw [peek]
  rcases s.next with error | _ | ⟨u, s₁⟩
  · simp [Except.map]
  · simp [Except.map]
  · simp [Except.map]

/-- A stream stands behind the last of the tokens that it has read. -/
theorem Reads.position_eq (h : s.Reads ts s') (hne : ts ≠ []) :
    ts.getLast?.map Token.stop = some s'.position := by
  induction h with
  | nil => exact absurd rfl hne
  | @cons s s₁ s' t ts hnext hrest ih =>
    cases hrest with
    | nil =>
      obtain ⟨hend, -⟩ | ⟨_, _, hfault, -⟩ | ⟨k, hk, -⟩ := s.next_cases
      · cases hend.symm.trans hnext
      · cases hfault.symm.trans hnext
      · cases hk.symm.trans hnext
        exact congrArg some (Token.stop_shift s.position k)
    | cons hnext' hrest' =>
      rw [List.getLast?_cons_cons]
      exact ih (List.cons_ne_nil _ _)

/-- What is read is cut off the text ahead, and the stream goes on behind it. -/
theorem next_eq_some_iff : s.next = .ok (some (t, s')) ↔
    ∃ k, Lexeme.ofText s.remaining = .token k ∧ k.shift s.position = t ∧
      s.restore (s.position + k.stop) = s' := by
  unfold next
  cases Lexeme.ofText s.remaining with
  | finished => simp
  | fault => simp
  | token k => simp

/-- A token starts at the position of the stream or behind it, and the stream moves past its
    start. -/
theorem start_of_next (h : s.next = .ok (some (t, s'))) :
    s.position ≤ t.start ∧ t.start < s'.position := by
  obtain ⟨k, hk, rfl, rfl⟩ := next_eq_some_iff.1 h
  obtain ⟨-, -, -, -, -, hne⟩ := Lexeme.eq_append_of_ofText hk
  have hsource := List.length_pos_iff.2 hne
  simp only [Token.shift, Token.stop, restore]
  omega

theorem Reads.position_le (h : s.Reads ts s') : s.position ≤ s'.position := by
  induction h with
  | nil => exact Nat.le_refl _
  | cons hnext _ ih =>
    have := start_of_next hnext
    omega

theorem Reads.le_start (h : s.Reads ts s') : ∀ t ∈ ts, s.position ≤ t.start := by
  induction h with
  | nil => exact nofun
  | cons hnext _ ih =>
    have := start_of_next hnext
    refine List.forall_mem_cons.2 ⟨this.1, fun u hu => ?_⟩
    have := ih u hu
    omega

/-- No token is read twice. -/
theorem Reads.nodup (h : s.Reads ts s') : ts.Nodup := by
  induction h with
  | nil => exact List.nodup_nil
  | @cons s s₁ s' t ts hnext hrest ih =>
    refine List.nodup_cons.2 ⟨fun ht => ?_, ih⟩
    have := start_of_next hnext
    have := hrest.le_start t ht
    omega

/-- Of two runs of tokens that stand next in a stream, the longer one goes on behind the other. -/
theorem Reads.comparable {ts₁ ts₂ : List Token} {s₁ s₂ : TokenStream} (h₁ : s.Reads ts₁ s₁)
    (h₂ : s.Reads ts₂ s₂) :
    (∃ ts, ts₂ = ts₁ ++ ts ∧ s₁.Reads ts s₂) ∨ ∃ ts, ts₁ = ts₂ ++ ts ∧ s₂.Reads ts s₁ := by
  induction h₁ generalizing ts₂ with
  | nil s => exact Or.inl ⟨ts₂, rfl, h₂⟩
  | @cons s u s₁ t ts₁ hnext hrest ih =>
    cases h₂ with
    | nil => exact Or.inr ⟨t :: ts₁, rfl, .cons hnext hrest⟩
    | cons hnext' hrest' =>
      cases hnext.symm.trans hnext'
      exact (ih hrest').imp (fun ⟨ts, hts, h⟩ => ⟨ts, congrArg (t :: ·) hts, h⟩)
        fun ⟨ts, hts, h⟩ => ⟨ts, congrArg (t :: ·) hts, h⟩

/-- **All tokens ahead of a stream stand next in it.** -/
theorem reads_tokens (s : TokenStream) : s.Reads s.tokens s.exhaust := by
  rw [tokens, exhaust]
  -- on the tokens ahead, since each of them leaves a stream with one less
  generalize hahead : s.ahead = ahead
  induction ahead generalizing s with
  | finish => exact .nil s
  | fault => exact .nil s
  | next k rest ih =>
    obtain ⟨-, hahead'⟩ | ⟨_, _, -, hahead'⟩ | ⟨j, hnext, hahead'⟩ := s.next_cases
    · cases hahead.symm.trans hahead'
    · cases hahead.symm.trans hahead'
    · cases hahead.symm.trans hahead'
      have hrest := ih (s.restore (s.position + k.stop)) rfl
      simp only [restore, Nat.add_assoc] at hrest hnext
      exact .cons hnext hrest

/-! ## Readers of a stream -/

/-- A reader makes a value of what stands next in a stream, and stops at another stream. -/
def Accepts {α : Type} (s : TokenStream) (read : Tokens → Reading α) (a : α) (s' : TokenStream) :
    Prop :=
  ∃ used, read s.ahead = .accept a used ∧ s.restore (s.position + used) = s'

variable {α : Type} {read : Tokens → Reading α} {a : α}

/-- A reader that reads a token accepts what the reader behind the token does. -/
theorem accepts_of_behind {k : Token} (read' : Tokens → Reading α)
    (h : read s.ahead = (read' (s.restore (s.position + k.stop)).ahead).behind k.stop) :
    s.Accepts read a s' ↔ (s.restore (s.position + k.stop)).Accepts read' a s' := by
  rw [Accepts, Accepts, h]
  cases read' (s.restore (s.position + k.stop)).ahead with
  | pass => simp [Reading.behind]
  | refuse => simp [Reading.behind]
  | accept b used => simp [Reading.behind, restore, Nat.add_assoc]

/-- A reader makes another value of just what it accepts. -/
theorem accepts_map {β : Type} {f : α → β} {b : β} :
    s.Accepts (fun tokens => (read tokens).map f) b s' ↔ ∃ a, f a = b ∧ s.Accepts read a s' := by
  simp only [Accepts]
  cases read s.ahead with
  | pass => simp [Reading.map]
  | refuse => simp [Reading.map]
  | accept a used => simp [Reading.map]

end TokenStream

/-! ## Spellings -/

/-- A set of token lists, each with the token that closes it, if one does. -/
abbrev Spelling := List Token → Option Token → Prop

/-- A token that may be left out is there whenever it can be: it passes a test, or else the token
    that stands next does not. -/
def Fits (p : Token → Bool) : Option Token → List Token → Prop
  | some t, _ => p t = true
  | none, behind => ∀ t ∈ behind.head?, p t = false

namespace Spelling

/-- The end of a command: a token that closes it, or the end of the text. -/
def ending : Spelling := fun ts closing => ts = [] ∧ ∀ t ∈ closing, t.isEnd = true

/-- A spelling behind a token with a property. -/
def behind (p : Token → Prop) (spelling : Spelling) : Spelling := fun ts closing =>
  ∃ t rest, ts = t :: rest ∧ p t ∧ spelling rest closing

/-- A spelling behind a token that may be left out, and that decides about the spelling. -/
def behindOptional (p : Token → Bool) (spelling : Bool → Spelling) : Spelling := fun ts closing =>
  ∃ slot : Option Token, ∃ rest, ts = slot.toList ++ rest ∧
    Fits p slot (rest ++ closing.toList) ∧ spelling slot.isSome rest closing

end Spelling

/-- A reader makes a value of just the streams that go on with a spelling of it. -/
def Recognizes {α : Type} (read : Tokens → Reading α) (a : α) (spelling : Spelling) : Prop :=
  ∀ s s' : TokenStream,
    s.Accepts read a s' ↔ ∃ ts closing, spelling ts closing ∧ s.Completes ts closing s'

section
variable {α : Type} {a : α} {p : Token → Bool} {s s' s₁ : TokenStream} {t : Token}

/-- A token may be left out of a spelling if the stream does not go on with one that fits. -/
theorem fits_none_iff {ts : List Token} {closing : Option Token} (h : s.Completes ts closing s') :
    Fits p none (ts ++ closing.toList) ↔
      ∀ t s₁, s.next = .ok (some (t, s₁)) → p t = false := by
  obtain ⟨hreads, hend⟩ := h
  cases hts : ts ++ closing.toList with
  | nil =>
    rw [hts] at hreads
    obtain rfl := TokenStream.reads_nil_iff.1 hreads
    have hclosing : closing = none := by
      cases closing with
      | none => rfl
      | some => simp at hts
    refine ⟨fun _ t s₁ hnext => ?_, fun _ => nofun⟩
    cases (hend hclosing).symm.trans hnext
  | cons u us =>
    rw [hts] at hreads
    obtain ⟨s₂, hnext, -⟩ := TokenStream.reads_cons_iff.1 hreads
    constructor
    · intro hfits t s₁ hnext'
      cases hnext.symm.trans hnext'
      exact hfits u rfl
    · rintro hno _ ⟨⟩
      exact hno u s₂ hnext

/-! ## Tokens that must be there -/

/-- A reader that reads the end of a command and nothing else. -/
theorem Recognizes.ending {read : Tokens → Reading α}
    (haccepts : ∀ s s' : TokenStream, s.Accepts read a s' ↔
      s.next = .ok none ∧ s = s' ∨ ∃ t, s.next = .ok (some (t, s')) ∧ t.isEnd = true) :
    Recognizes read a .ending := by
  intro s s'
  rw [haccepts]
  constructor
  · rintro (⟨hnext, rfl⟩ | ⟨t, hnext, ht⟩)
    · exact ⟨[], none, ⟨rfl, nofun⟩, .nil s, fun _ => hnext⟩
    · refine ⟨[], some t, ⟨rfl, ?_⟩, .cons hnext (.nil s'), nofun⟩
      rintro _ ⟨⟩
      exact ht
  · rintro ⟨_, closing, ⟨rfl, hend⟩, hcompletes⟩
    cases closing with
    | none =>
      obtain ⟨rfl, hnext⟩ := TokenStream.next_of_completes_nil hcompletes
      exact Or.inl ⟨hnext, rfl⟩
    | some t =>
      obtain ⟨s₁, hnext, hreads⟩ := TokenStream.reads_cons_iff.1 hcompletes.1
      obtain rfl := TokenStream.reads_nil_iff.1 hreads
      exact Or.inr ⟨t, hnext, hend t rfl⟩

/-- A reader that reads a token with a property in front of what another one reads. -/
theorem Recognizes.behind {β : Type} {read : Tokens → Reading α} {read' : Tokens → Reading β}
    {b : β} {spelling : Spelling} {property : Token → Prop} (h : Recognizes read a spelling)
    (haccepts : ∀ s s' : TokenStream, s.Accepts read' b s' ↔
      ∃ t s₁, s.next = .ok (some (t, s₁)) ∧ property t ∧ s₁.Accepts read a s') :
    Recognizes read' b (spelling.behind property) := by
  intro s s'
  rw [haccepts]
  constructor
  · rintro ⟨t, s₁, hnext, ht, haccept⟩
    obtain ⟨ts, closing, hspelling, hcompletes⟩ := (h s₁ s').1 haccept
    exact ⟨t :: ts, closing, ⟨t, ts, rfl, ht, hspelling⟩,
      TokenStream.completes_cons_iff.2 ⟨s₁, hnext, hcompletes⟩⟩
  · rintro ⟨_, closing, ⟨t, ts, rfl, ht, hspelling⟩, hcompletes⟩
    obtain ⟨s₁, hnext, hcompletes⟩ := TokenStream.completes_cons_iff.1 hcompletes
    exact ⟨t, s₁, hnext, ht, (h s₁ s').2 ⟨ts, closing, hspelling, hcompletes⟩⟩

theorem accepts_readWord {read : Tokens → Reading α} {otherwise : Reading α}
    (hother : ∀ b used, otherwise ≠ .accept b used) (word : Text) :
    s.Accepts (readWord word otherwise read) a s' ↔
      ∃ t s₁, s.next = .ok (some (t, s₁)) ∧ t.isTheWord word = true ∧ s₁.Accepts read a s' := by
  obtain ⟨hnext, hahead⟩ | ⟨_, _, hnext, hahead⟩ | ⟨k, hnext, hahead⟩ := s.next_cases
  · simp [TokenStream.Accepts, hnext, hahead, readWord, hother]
  · simp [TokenStream.Accepts, hnext, hahead, readWord, Reading.faulty]
  · have hword : (k.shift s.position).isTheWord word = k.isTheWord word := rfl
    by_cases hk : k.isTheWord word = true
    · have hread : readWord word otherwise read s.ahead =
          (read (s.restore (s.position + k.stop)).ahead).behind k.stop := by
        rw [hahead, readWord, if_pos hk]
      rw [TokenStream.accepts_of_behind read hread]
      simp [hnext, hword, hk]
    · have hread : readWord word otherwise read s.ahead = otherwise := by
        rw [hahead, readWord, if_neg hk]
      simp [TokenStream.Accepts, hread, hother, hnext, hword, hk]

/-- A reader behind a word recognizes the spellings behind the word. -/
theorem Recognizes.readWord {read : Tokens → Reading α} {spelling : Spelling}
    (h : Recognizes read a spelling) {otherwise : Reading α}
    (hother : ∀ b used, otherwise ≠ .accept b used) (word : Text) :
    Recognizes (readWord word otherwise read) a (spelling.behind (·.isTheWord word = true)) :=
  h.behind fun _ _ => accepts_readWord hother word

/-! ## Tokens that may be left out -/

section
variable {read : Bool → Tokens → Reading α}

/-- A reader that looks whether a token can be read in front of it, and reads it. -/
def readDeciding (p : Token → Bool) (read : Bool → Tokens → Reading α) (tokens : Tokens) :
    Reading α :=
  readOptional p (read (tokens.first?.any p)) tokens

theorem accepts_readDeciding_of_fits (hp : ∀ n t, p (t.shift n) = p t)
    (hnext : s.next = .ok (some (t, s₁))) (ht : p t = true) :
    s.Accepts (readDeciding p read) a s' ↔ s₁.Accepts (read true) a s' := by
  obtain ⟨hnext', -⟩ | ⟨_, _, hnext', -⟩ | ⟨k, hnext', hahead⟩ := s.next_cases
  · cases hnext'.symm.trans hnext
  · cases hnext'.symm.trans hnext
  · cases hnext'.symm.trans hnext
    rw [hp] at ht
    refine TokenStream.accepts_of_behind (read true) ?_
    rw [hahead, readDeciding, readOptional, if_pos ht, Tokens.first?, Option.any_some, ht]

theorem accepts_readDeciding_of_not_fits (hp : ∀ n t, p (t.shift n) = p t)
    (hno : ∀ t s₁, s.next = .ok (some (t, s₁)) → p t = false) :
    s.Accepts (readDeciding p read) a s' ↔ s.Accepts (read false) a s' := by
  have hread : readDeciding p read s.ahead = read false s.ahead := by
    obtain ⟨-, hahead⟩ | ⟨_, _, -, hahead⟩ | ⟨k, hnext, hahead⟩ := s.next_cases
    · rw [hahead]
      rfl
    · rw [hahead]
      rfl
    · have hk : p k = false := by
        rw [← hp s.position]
        exact hno _ _ hnext
      rw [hahead, readDeciding, readOptional, hk, if_neg Bool.false_ne_true, Tokens.first?,
        Option.any_some, hk]
  rw [TokenStream.Accepts, TokenStream.Accepts, hread]

/-- A reader behind a token that may be left out takes it whenever it fits. -/
theorem Recognizes.readDeciding {spelling : Bool → Spelling}
    (h : ∀ taken, Recognizes (read taken) a (spelling taken))
    (hp : ∀ n t, p (t.shift n) = p t) :
    Recognizes (readDeciding p read) a (.behindOptional p spelling) := by
  intro s s'
  -- the token decides how the reader goes on, and whether the spelling has it
  by_cases hfits : ∃ t s₁, s.next = .ok (some (t, s₁)) ∧ p t = true
  · obtain ⟨t, s₁, hnext, ht⟩ := hfits
    rw [accepts_readDeciding_of_fits hp hnext ht, h true]
    constructor
    · rintro ⟨ts, closing, hspelling, hcompletes⟩
      exact ⟨t :: ts, closing, ⟨some t, ts, rfl, ht, hspelling⟩,
        TokenStream.completes_cons_iff.2 ⟨s₁, hnext, hcompletes⟩⟩
    · rintro ⟨_, closing, ⟨slot, ts, rfl, hslot, hspelling⟩, hcompletes⟩
      cases slot with
      | none =>
        rw [(fits_none_iff hcompletes).1 hslot t s₁ hnext] at ht
        cases ht
      | some u =>
        obtain ⟨s₂, hnext', hcompletes⟩ := TokenStream.completes_cons_iff.1 hcompletes
        cases hnext.symm.trans hnext'
        exact ⟨ts, closing, hspelling, hcompletes⟩
  · have hno : ∀ t s₁, s.next = .ok (some (t, s₁)) → p t = false := fun t s₁ hnext =>
      Bool.eq_false_iff.2 fun ht => hfits ⟨t, s₁, hnext, ht⟩
    rw [accepts_readDeciding_of_not_fits hp hno, h false]
    constructor
    · rintro ⟨ts, closing, hspelling, hcompletes⟩
      exact ⟨ts, closing, ⟨none, ts, rfl, (fits_none_iff hcompletes).2 hno, hspelling⟩, hcompletes⟩
    · rintro ⟨_, closing, ⟨slot, ts, rfl, hslot, hspelling⟩, hcompletes⟩
      cases slot with
      | none => exact ⟨ts, closing, hspelling, hcompletes⟩
      | some u =>
        obtain ⟨s₂, hnext', -⟩ := TokenStream.completes_cons_iff.1 hcompletes
        exact absurd ⟨u, s₂, hnext', hslot⟩ hfits

end

/-- The same for a reader that reads on in one way. -/
theorem Recognizes.readOptional {read : Tokens → Reading α} {spelling : Spelling}
    (h : Recognizes read a spelling) (hp : ∀ n t, p (t.shift n) = p t) :
    Recognizes (readOptional p read) a (.behindOptional p fun _ => spelling) := by
  have hdeciding : Recognizes (MentionCommands.readDeciding p fun _ => read) a
      (.behindOptional p fun _ => spelling) := .readDeciding (fun _ => h) hp
  exact hdeciding

end

/-! ## Grammars -/

section
variable {α : Type} {g : Grammar} {read : Tokens → Reading α} {f : α → Command} {s : TokenStream}

/-- An error is no match. -/
theorem verdict_error_ne_matched (start position : Nat) (error : Diagnostic) (c : Command) :
    Parse.verdict start ⟨.error error, position⟩ ≠ .matched c := by
  by_cases h : error.stage = .lexing ∧ position = start
  · exact fun heq => nomatch (if_pos h).symm.trans heq
  · exact fun heq => nomatch (if_neg h).symm.trans heq

/-- A grammar matches what its reader accepts, and stops where the reader does. -/
theorem attempt_matched_iff (hg : g.parse = parseTokens fun tokens => (read tokens).map f)
    {c : Command} {n : Nat} :
    (g.attempt s).verdict = .matched c ∧ (g.attempt s).position = n ↔
      ∃ a s', f a = c ∧ s.Accepts read a s' ∧ s'.position = n := by
  have hparse : g.parse s = ((read s.ahead).map f).parse s := by rw [hg]; rfl
  rw [Grammar.attempt, hparse]
  simp only [TokenStream.Accepts]
  cases read s.ahead with
  | pass => simp [Reading.map, Reading.parse, Parse.verdict]
  | accept a used =>
    simp [Reading.map, Reading.parse, Parse.verdict, TokenStream.restore, and_assoc]
  | refuse refusal used =>
    simp [Reading.map, Reading.parse, verdict_error_ne_matched]

/-- A grammar rejects what it claims, unless its reader accepts it. -/
theorem attempt_rejected_iff (hg : g.parse = parseTokens fun tokens => (read tokens).map f) :
    (∃ e, (g.attempt s).verdict = .rejected e) ↔
      (g.attempt s).claimed = true ∧ ¬ ∃ a s', s.Accepts read a s' := by
  have hmatched : (∃ c, (g.attempt s).verdict = .matched c) ↔ ∃ a s', s.Accepts read a s' := by
    constructor
    · rintro ⟨c, hc⟩
      obtain ⟨a, s', -, haccepts, -⟩ := (attempt_matched_iff hg).1 ⟨hc, rfl⟩
      exact ⟨a, s', haccepts⟩
    · rintro ⟨a, s', haccepts⟩
      exact ⟨f a, ((attempt_matched_iff hg).2 ⟨a, s', rfl, haccepts, rfl⟩).1⟩
  rw [← hmatched, Outcome.claimed]
  cases (g.attempt s).verdict with
  | notMine => simp
  | matched c => simp
  | rejected e => simp

end

end MentionCommands
