/-
  One step of a session.

  * `Session.step_cases`: all that a step can do, with the reason for which it does so;
  * `Session.results_of_matched` and its like: the reports after each kind of report;
  * `Session.IsOn`: a session reads a comment for a bot with some grammars, whatever tokens a block
    parser has found in it, and does so after any number of steps; `Session.Reachable`: some number
    of steps leads to a session.
-/
import Mathlib.Logic.Function.Iterate
import MentionCommands.Dispatch.Session

namespace MentionCommands

namespace Session

variable {s : Session} {t bot : Text} {tokens : List BlockToken} {grammars : List Grammar}

/-! ## What a step can do -/

theorem step_of_fault {a : Ambiguity} (h : s.fault = some a) : s.step = (.ambiguous a, s) := by
  rw [step, h]

theorem step_of_sighting_none (hf : s.fault = none) (h : s.sighting? = none) :
    s.step = (.nothing, s) := by
  simp only [step, hf, h]

theorem step_of_claimed {g : Sighting} {o : Outcome} (hf : s.fault = none)
    (hg : s.sighting? = some g) (ho : s.decision g = .claimed o) :
    s.step = (o.report, s.after o) := by
  simp only [step, hf, hg, ho]

/-- **All that a step can do**: it finds nothing and changes nothing, or it keeps an ambiguity, or
    it reports a claim. -/
theorem step_cases (s : Session) :
    (s.report = .nothing ∧ s.next = s ∧ s.fault = none ∧ ∀ g, s.sighting? = some g →
      s.decision g = .unclaimed ∨ ∃ span stop, s.decision g = .inCode span stop) ∨
    (∃ a, s.report = .ambiguous a ∧ s.next = { s with fault := some a } ∧
      (s.fault = some a ∨
        s.fault = none ∧ ∃ g, s.sighting? = some g ∧ s.decision g = .ambiguous a)) ∨
    (∃ g o, s.report = o.report ∧ s.next = s.after o ∧ s.fault = none ∧ s.sighting? = some g ∧
      s.decision g = .claimed o) := by
  unfold report next
  rcases hf : s.fault with _ | a
  · rcases hg : s.sighting? with _ | g
    · rw [step_of_sighting_none hf hg]
      exact Or.inl ⟨rfl, rfl, rfl, fun g h => by cases h⟩
    · rcases hd : s.decision g with a | ⟨span, stop⟩ | o | _
      · have hstep : s.step = (.ambiguous a, { s with fault := some a }) := by
          simp only [step, hf, hg, hd]
        rw [hstep]
        exact Or.inr (Or.inl ⟨a, rfl, rfl, Or.inr ⟨rfl, g, rfl, hd⟩⟩)
      · have hstep : s.step = (.nothing, s) := by simp only [step, hf, hg, hd]
        rw [hstep]
        exact Or.inl ⟨rfl, rfl, rfl, by rintro _ ⟨⟩; exact Or.inr ⟨span, stop, hd⟩⟩
      · rw [step_of_claimed hf hg hd]
        exact Or.inr (Or.inr ⟨g, o, rfl, rfl, rfl, rfl, hd⟩)
      · have hstep : s.step = (.nothing, s) := by simp only [step, hf, hg, hd]
        rw [hstep]
        exact Or.inl ⟨rfl, rfl, rfl, by rintro _ ⟨⟩; exact Or.inl hd⟩
  · rw [step_of_fault hf]
    refine Or.inr (Or.inl ⟨a, rfl, ?_, Or.inl rfl⟩)
    obtain ⟨code, bot, grammars, cursor, fault⟩ := s
    cases hf
    rfl

/-! ## Reports -/

theorem matched_or_not (s : Session) : (∃ name command, s.report = .matched name command) ∨
    ∀ name command, s.report ≠ .matched name command := by
  cases s.report with
  | matched name command => exact Or.inl ⟨name, command, rfl⟩
  | nothing | rejected | ambiguous => exact Or.inr nofun

theorem results_of_nothing (h : s.report = .nothing) : s.results = some [] := by
  rw [results, h]

theorem results_of_not_isOk (h : s.report.isOk = false) : s.results = some [s.report] := by
  rw [results]
  cases hr : s.report with
  | nothing | matched => rw [hr] at h; cases h
  | rejected | ambiguous => rfl

theorem results_of_matched {name : Text} {command : Command}
    (h : s.report = .matched name command) :
    s.results = s.next.results.map (s.report :: ·) := by
  rw [results, h]
  cases s.next.results <;> rfl

/-! ## Sessions on a comment -/

/-- A session reads a comment with its tokens for a bot with some grammars. -/
structure IsOn (t : Text) (tokens : List BlockToken) (bot : Text) (grammars : List Grammar)
    (s : Session) : Prop where
  code : s.code = .ofTokens t tokens
  bot : s.bot = bot
  grammars : s.grammars = grammars

theorem isOn_ofTokens (t : Text) (tokens : List BlockToken) (bot : Text) (grammars : List Grammar) :
    (ofTokens t tokens bot grammars).IsOn t tokens bot grammars := ⟨rfl, rfl, rfl⟩

theorem IsOn.text (h : s.IsOn t tokens bot grammars) : s.text = t := by
  rw [Session.text, h.code]
  rfl

theorem IsOn.after (h : s.IsOn t tokens bot grammars) (o : Outcome) :
    (s.after o).IsOn t tokens bot grammars := by
  unfold Session.after
  split
  · exact ⟨h.code, h.bot, h.grammars⟩
  · exact h

theorem IsOn.next (h : s.IsOn t tokens bot grammars) : s.next.IsOn t tokens bot grammars := by
  rcases s.step_cases with ⟨-, hn, -⟩ | ⟨a, -, hn, -⟩ | ⟨g, o, -, hn, -⟩
  · rwa [hn]
  · rw [hn]
    exact ⟨h.code, h.bot, h.grammars⟩
  · rw [hn]
    exact h.after o

/-- Some number of steps leads to a session. -/
def Reachable (t : Text) (tokens : List BlockToken) (bot : Text) (grammars : List Grammar)
    (s : Session) : Prop :=
  ∃ n, Session.next^[n] (ofTokens t tokens bot grammars) = s

theorem reachable_ofTokens (t : Text) (tokens : List BlockToken) (bot : Text)
    (grammars : List Grammar) :
    (ofTokens t tokens bot grammars).Reachable t tokens bot grammars := ⟨0, rfl⟩

theorem Reachable.next (h : s.Reachable t tokens bot grammars) :
    s.next.Reachable t tokens bot grammars := by
  obtain ⟨n, rfl⟩ := h
  exact ⟨n + 1, Function.iterate_succ_apply' ..⟩

/-- What holds at the start and is kept by every step holds of all reachable sessions. -/
theorem Reachable.induction {p : Session → Prop} (h : s.Reachable t tokens bot grammars)
    (hstart : p (ofTokens t tokens bot grammars))
    (hnext : ∀ s : Session, s.IsOn t tokens bot grammars → p s → p s.next) :
    s.IsOn t tokens bot grammars ∧ p s := by
  obtain ⟨n, rfl⟩ := h
  induction n with
  | zero => exact ⟨isOn_ofTokens .., hstart⟩
  | succ n ih =>
    rw [Function.iterate_succ_apply']
    exact ⟨ih.1.next, hnext _ ih.1 ih.2⟩

theorem Reachable.isOn (h : s.Reachable t tokens bot grammars) : s.IsOn t tokens bot grammars :=
  (h.induction (p := fun _ => True) trivial fun _ _ _ => trivial).1

end Session

end MentionCommands
