/-
  Where readers refuse, and why.

  A reader of a language stops at the first place where no spelling goes on, and refuses for a
  lexical reason just if no token can be cut off there.  Tokens decide one after another, so a
  reader is compared with its language token by token: behind a token it reads what the language
  has left.

  * `Opens` and `GoesOn`: tokens that start a spelling, and what may stand behind them;
  * `TokenStream.StuckAt`: the place where no spelling goes on; there is one at most;
  * `Settles`: a reader accepts the spellings that stand next in a stream, and refuses where the
    stream gets stuck; `Settles.behind`, `Settles.accept`, `Settles.fail`, `Settles.faulty` and
    `Settles.pass` are the steps that a reader can make;
  * `exists_refusal_of_rejected`: a grammar rejects what its reader refuses.
-/
import MentionCommands.Proofs.Grammar.Language

namespace MentionCommands

section
variable {α : Type}

/-! ## Starts of spellings -/

/-- The spellings that are left behind a token. -/
def after (t : Token) (spelling : α → Spelling) : α → Spelling := fun a ts closing =>
  spelling a (t :: ts) closing

theorem after_eq {t : Token} {spelling rest : α → Spelling}
    (h : ∀ a ts closing, spelling a (t :: ts) closing ↔ rest a ts closing) :
    after t spelling = rest := by
  funext a ts closing
  exact propext (h a ts closing)

/-- Tokens start a spelling. -/
def Opens (spelling : α → Spelling) (ts : List Token) : Prop :=
  ∃ a behind closing, spelling a (ts ++ behind) closing

/-- Behind tokens that start a spelling, one goes on with a token, or ends with the text. -/
def GoesOn (spelling : α → Spelling) (ts : List Token) : Option Token → Prop
  | some t => Opens spelling (ts ++ [t]) ∨ ∃ a, spelling a ts (some t)
  | none => ∃ a, spelling a ts none

/-- A stream starts a spelling, and behind the tokens of that start none goes on. -/
def TokenStream.StuckAt (s : TokenStream) (spelling : α → Spelling) (s' : TokenStream) : Prop :=
  ∃ ts, s.Reads ts s' ∧ Opens spelling ts ∧ ∀ next, s'.peek = .ok next → ¬ GoesOn spelling ts next

variable {spelling : α → Spelling} {s s' s₁ s₂ : TokenStream} {t : Token} {ts us : List Token}

theorem TokenStream.peek_of_next (h : s.next = .ok (some (t, s₁))) : s.peek = .ok (some t) :=
  peek_eq_some_iff_next.2 ⟨_, h⟩

theorem opens_of_append (h : Opens spelling (ts ++ t :: us)) : Opens spelling (ts ++ [t]) := by
  obtain ⟨a, behind, closing, hspelling⟩ := h
  rw [List.append_assoc, List.cons_append] at hspelling
  refine ⟨a, us ++ behind, closing, ?_⟩
  rwa [List.append_assoc, List.singleton_append]

/-- Where no spelling goes on, none is read on. -/
theorem eq_of_stuck (hstuck : ∀ next, s₁.peek = .ok next → ¬ GoesOn spelling ts next)
    (hreads : s₁.Reads us s₂) (hopens : Opens spelling (ts ++ us)) : s₁ = s₂ := by
  cases hreads with
  | nil => rfl
  | cons hnext _ =>
    have hpeek := TokenStream.peek_of_next hnext
    exact absurd (Or.inl (opens_of_append hopens)) (hstuck _ hpeek)

/-- **A stream gets stuck at one place at most.** -/
theorem TokenStream.StuckAt.unique (h₁ : s.StuckAt spelling s₁) (h₂ : s.StuckAt spelling s₂) :
    s₁ = s₂ := by
  obtain ⟨ts₁, hreads₁, hopens₁, hstuck₁⟩ := h₁
  obtain ⟨ts₂, hreads₂, hopens₂, hstuck₂⟩ := h₂
  rcases hreads₁.comparable hreads₂ with ⟨us, rfl, hus⟩ | ⟨us, rfl, hus⟩
  · exact eq_of_stuck hstuck₁ hus hopens₂
  · exact (eq_of_stuck hstuck₂ hus hopens₁).symm

/-- A stream gets stuck where it does behind its first token. -/
theorem TokenStream.StuckAt.behind (hnext : s.next = .ok (some (t, s₁)))
    (h : s₁.StuckAt (after t spelling) s') : s.StuckAt spelling s' := by
  obtain ⟨ts, hreads, hopens, hstuck⟩ := h
  exact ⟨t :: ts, .cons hnext hreads, hopens, hstuck⟩

theorem TokenStream.peek_eq_none_iff : s.peek = .ok none ↔ s.next = .ok none := by
  rw [peek]
  rcases s.next with error | _ | ⟨u, s₁⟩
  · simp [Except.map]
  · simp [Except.map]
  · simp [Except.map]

/-- Where no spelling starts, none stands next. -/
theorem not_completes_of_stuck (hstuck : ∀ next, s.peek = .ok next → ¬ GoesOn spelling [] next)
    {a : α} {closing : Option Token} (hspelling : spelling a ts closing) :
    ¬ s.Completes ts closing s' := by
  intro hcompletes
  cases ts with
  | cons t ts =>
    obtain ⟨s₁, hnext, -⟩ := TokenStream.completes_cons_iff.1 hcompletes
    have hpeek := TokenStream.peek_of_next hnext
    exact hstuck _ hpeek (Or.inl ⟨a, ts, closing, hspelling⟩)
  | nil =>
    cases closing with
    | none =>
      have hpeek := TokenStream.peek_eq_none_iff.2 (TokenStream.next_of_completes_nil hcompletes).2
      exact hstuck _ hpeek ⟨a, hspelling⟩
    | some t =>
      obtain ⟨s₁, hnext, -⟩ := TokenStream.reads_cons_iff.1 hcompletes.1
      have hpeek := TokenStream.peek_of_next hnext
      exact hstuck _ hpeek (Or.inr ⟨a, hspelling⟩)

/-! ## Refusals -/

/-- The stage at which a refusal is made. -/
def Refusal.stage : Refusal → Stage
  | lexical _ _ => .lexing
  | grammatical _ => .grammar

theorem Refusal.stage_diagnostic (refusal : Refusal) (s : TokenStream) :
    (refusal.diagnostic s).stage = refusal.stage := by
  cases refusal <;> rfl

/-- A reader refuses what stands next in a stream, behind what it has read. -/
def TokenStream.Refuses (s : TokenStream) (read : Tokens → Reading α) (refusal : Refusal)
    (s' : TokenStream) : Prop :=
  ∃ used, read s.ahead = .refuse refusal used ∧ s.restore (s.position + used) = s'

/-- A reader accepts just the spellings that stand next in a stream; what it refuses gets stuck
    where the reader stops, and the refusal is lexical just if no token can be cut off there. -/
structure Settles (read : Tokens → Reading α) (spelling : α → Spelling) (s : TokenStream) :
    Prop where
  accepts : ∀ a s', s.Accepts read a s' ↔
    ∃ ts closing, spelling a ts closing ∧ s.Completes ts closing s'
  refuses : ∀ refusal s', s.Refuses read refusal s' →
    s.StuckAt spelling s' ∧ (refusal.stage = .lexing ↔ ∃ error, s'.peek = .error error)

variable {read : Tokens → Reading α}

theorem Settles.congr (read' : Tokens → Reading α) (hread : read s.ahead = read' s.ahead)
    (h : Settles read' spelling s) : Settles read spelling s where
  accepts a s' := by
    rw [TokenStream.Accepts, hread]
    exact h.accepts a s'
  refuses refusal s' hrefuses := by
    rw [TokenStream.Refuses, hread] at hrefuses
    exact h.refuses refusal s' hrefuses

/-- A reader that reads a token reads behind it what the language has left. -/
theorem Settles.behind {k : Token} {rest : α → Spelling} (read' : Tokens → Reading α)
    (hnext : s.next = .ok (some (k.shift s.position, s.restore (s.position + k.stop))))
    (hread : read s.ahead = (read' (s.restore (s.position + k.stop)).ahead).behind k.stop)
    (hnil : ∀ a closing, ¬ spelling a [] closing)
    (hafter : after (k.shift s.position) spelling = rest)
    (h : Settles read' rest (s.restore (s.position + k.stop))) : Settles read spelling s where
  accepts a s' := by
    rw [TokenStream.accepts_of_behind read' hread, h.accepts, ← hafter]
    constructor
    · rintro ⟨ts, closing, hspelling, hcompletes⟩
      exact ⟨_, closing, hspelling, TokenStream.completes_cons_iff.2 ⟨_, hnext, hcompletes⟩⟩
    · rintro ⟨_ | ⟨t, ts⟩, closing, hspelling, hcompletes⟩
      · exact absurd hspelling (hnil a closing)
      · obtain ⟨s₁, hnext', hcompletes⟩ := TokenStream.completes_cons_iff.1 hcompletes
        cases hnext.symm.trans hnext'
        exact ⟨ts, closing, hspelling, hcompletes⟩
  refuses refusal s' := by
    rintro ⟨used, hrefuse, rfl⟩
    rw [hread] at hrefuse
    cases hr : read' (s.restore (s.position + k.stop)).ahead with
    | pass | accept =>
      rw [hr] at hrefuse
      cases hrefuse
    | refuse refusal' used' =>
      rw [hr] at hrefuse
      cases hrefuse
      obtain ⟨hstuck, hstage⟩ := h.refuses refusal _ ⟨used', hr, rfl⟩
      rw [← hafter] at hstuck
      simp only [TokenStream.restore, Nat.add_assoc] at hstuck hstage ⊢
      exact ⟨hstuck.behind hnext, hstage⟩

/-- A reader that accepts what stands next refuses nothing. -/
theorem Settles.accept {b : α} {used : Nat} (hread : read s.ahead = .accept b used)
    (haccepts : ∀ a s', s.Accepts read a s' ↔
      ∃ ts closing, spelling a ts closing ∧ s.Completes ts closing s') :
    Settles read spelling s where
  accepts := haccepts
  refuses refusal s' := by
    rintro ⟨used, hrefuse, -⟩
    cases hread.symm.trans hrefuse

/-- What no spelling starts need not be accepted. -/
theorem accepts_iff_of_stuck (hread : ∀ b used, read s.ahead ≠ .accept b used)
    (hstuck : ∀ next, s.peek = .ok next → ¬ GoesOn spelling [] next) (a : α) (s' : TokenStream) :
    s.Accepts read a s' ↔ ∃ ts closing, spelling a ts closing ∧ s.Completes ts closing s' := by
  constructor
  · rintro ⟨used, haccept, -⟩
    exact absurd haccept (hread a used)
  · rintro ⟨ts, closing, hspelling, hcompletes⟩
    exact absurd hcompletes (not_completes_of_stuck hstuck hspelling)

/-- A reader that refuses what stands next refuses rightly, where no spelling starts. -/
theorem Settles.refuse {refusal : Refusal} (hread : read s.ahead = .refuse refusal 0)
    (hopens : Opens spelling []) (hstuck : ∀ next, s.peek = .ok next → ¬ GoesOn spelling [] next)
    (hstage : refusal.stage = .lexing ↔ ∃ error, s.peek = .error error) :
    Settles read spelling s where
  accepts := accepts_iff_of_stuck (by simp [hread]) hstuck
  refuses refusal' s' := by
    rintro ⟨used, hrefuse, rfl⟩
    cases hread.symm.trans hrefuse
    exact ⟨⟨[], .nil s, hopens, hstuck⟩, hstage⟩

theorem Settles.fail {reason : Reason} {next : Option Token} (hpeek : s.peek = .ok next)
    (hread : read s.ahead = .fail reason) (hopens : Opens spelling [])
    (hstuck : ¬ GoesOn spelling [] next) : Settles read spelling s := by
  refine .refuse hread hopens (fun next' hpeek' => ?_) ⟨nofun, ?_⟩
  · cases hpeek.symm.trans hpeek'
    exact hstuck
  · rintro ⟨error, herror⟩
    cases hpeek.symm.trans herror

theorem Settles.faulty {error : Diagnostic} {reason : LexFault} {offset : Nat}
    (hnext : s.next = .error error) (hread : read s.ahead = .faulty reason offset)
    (hopens : Opens spelling []) : Settles read spelling s := by
  have hpeek : s.peek = .error error := by
    rw [TokenStream.peek, hnext]
    rfl
  refine .refuse hread hopens (fun next' hpeek' => ?_) ⟨fun _ => ⟨error, hpeek⟩, fun _ => rfl⟩
  cases hpeek.symm.trans hpeek'

/-- A reader passes rightly where no spelling starts. -/
theorem Settles.pass (hread : read s.ahead = .pass)
    (hstuck : ∀ next, s.peek = .ok next → ¬ GoesOn spelling [] next) : Settles read spelling s where
  accepts := accepts_iff_of_stuck (by simp [hread]) hstuck
  refuses refusal' s' := by
    rintro ⟨used, hrefuse, rfl⟩
    cases hread.symm.trans hrefuse

/-! ## Grammars -/

/-- An error is rejected as it is. -/
theorem eq_of_verdict_error {start position : Nat} {error error' : Diagnostic}
    (h : Parse.verdict start ⟨.error error, position⟩ = .rejected error') : error = error' := by
  by_cases hmine : error.stage = .lexing ∧ position = start
  · cases (if_pos hmine).symm.trans h
  · exact Verdict.rejected.inj ((if_neg hmine).symm.trans h)

/-- A grammar rejects what its reader refuses, and stops where the reader does. -/
theorem exists_refusal_of_rejected {g : Grammar} {f : α → Command} {error : Diagnostic}
    (hg : g.parse = parseTokens fun tokens => (read tokens).map f)
    (h : (g.attempt s).verdict = .rejected error) :
    ∃ refusal s', s.Refuses read refusal s' ∧ refusal.diagnostic s' = error ∧
      s'.position = (g.attempt s).position := by
  have hparse : g.parse s = ((read s.ahead).map f).parse s := by rw [hg]; rfl
  rw [Grammar.attempt, hparse] at h ⊢
  cases hr : read s.ahead with
  | pass | accept =>
    rw [hr] at h
    cases h
  | refuse refusal used =>
    rw [hr] at h
    exact ⟨refusal, _, ⟨used, hr, rfl⟩, eq_of_verdict_error h, rfl⟩

end

end MentionCommands
