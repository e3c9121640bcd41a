/-
  Whatever is not a command is reported for ever.

  * `Session.next_eq_self`: after a report that is no command, a session is where it stays;
  * `Session.report_repeats`: so the report is repeated and the cursor stays, however many steps
    follow, and behind an ambiguity no command is reported any more.
-/
import MentionCommands.Grammar.BuiltIn
import MentionCommands.Markdown.Structure
import MentionCommands.Proofs.Dispatch.Step

namespace MentionCommands.Session

variable {s : Session}

theorem after_of_not_matched {o : Outcome}
    (h : ∀ name command, o.report ≠ .matched name command) : s.after o = s := by
  unfold after
  split
  · rename_i command hv
    refine absurd ?_ (h o.grammar command)
    rw [Outcome.report, hv]
  · rfl

/-- A session that keeps an ambiguity reports it and stays as it is. -/
theorem report_of_fault {a : Ambiguity} (h : s.fault = some a) :
    s.report = .ambiguous a ∧ s.next = s := by
  rw [report, next, step_of_fault h]
  exact ⟨rfl, rfl⟩

/-- **After a report that is no command** the cursor is where it was, the next report is the same,
    and it leaves the session as it is. -/
theorem next_eq_self (h : ∀ name command, s.report ≠ .matched name command) :
    s.next.cursor = s.cursor ∧ s.next.report = s.report ∧ s.next.next = s.next := by
  rcases s.step_cases with ⟨-, hn, -⟩ | ⟨a, hr, hn, -⟩ | ⟨g, o, hr, hn, -⟩
  · rw [hn]
    exact ⟨rfl, rfl, hn⟩
  · obtain ⟨hr', hn'⟩ := report_of_fault (s := { s with fault := some a }) rfl
    rw [hn, hr]
    exact ⟨rfl, hr', hn'⟩
  · rw [after_of_not_matched fun name command h' => h name command (hr.trans h')] at hn
    rw [hn]
    exact ⟨rfl, rfl, hn⟩

/-- **Every report that is no command is repeated for ever.**  The step that gives it leaves the
    cursor where it was; all later steps give an equal report and leave the cursor there.  In
    particular no command is reported any more behind an ambiguity. -/
theorem report_repeats (h : ∀ name command, s.report ≠ .matched name command) :
    s.next.cursor = s.cursor ∧
    (∀ n, (Session.next^[n] s.next).report = s.report ∧
      (Session.next^[n] s.next).next.cursor = s.cursor) ∧
    (∀ a, s.report = .ambiguous a →
      ∀ n name command, (Session.next^[n] s.next).report ≠ .matched name command) := by
  obtain ⟨hcursor, hreport, hfix⟩ := next_eq_self h
  have hstay (n : Nat) : Session.next^[n] s.next = s.next := Function.iterate_fixed hfix n
  refine ⟨hcursor, fun n => ?_, fun a _ n name command => ?_⟩
  · rw [hstay, hfix]
    exact ⟨hreport, hcursor⟩
  · rw [hstay, hreport]
    exact h name command

/-- The refusal of a user that is not mentioned is repeated. -/
theorem refusal_repeats :
    let t := "@bot assign ann.\n@bot claim.".toList
    let tokens : List BlockToken := [⟨.inline, some (0, 2)⟩]
    let s := ofTokens t tokens "bot".toList builtInGrammars
    commonMark t = some tokens ∧ (∀ name command, s.report ≠ .matched name command) ∧
    ∀ n, (Session.next^[n] s.next).report.error? =
      some (.diagnostic ⟨.grammar, AssignFault.unmentionedUser.reason, t, 11⟩) := by
  intro t tokens s
  have hr : s.report =
      .rejected "assign".toList ⟨.grammar, AssignFault.unmentionedUser.reason, t, 11⟩ := by
    decide +kernel
  have h : ∀ name command, s.report ≠ .matched name command := by
    rw [hr]
    exact nofun
  refine ⟨by decide +kernel, h, fun n => ?_⟩
  rw [((report_repeats h).2.1 n).1, hr]
  rfl

end MentionCommands.Session
