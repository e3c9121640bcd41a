/-
  Comments that hold no mention outside code.

  * `IsHidden`: every mention of a comment with these tokens lies in code;
  * `Session.Reachable.grammar?_eq_none`: dispatch then reports neither a command nor a refusal,
    whatever the grammars are, and with the built-in grammars nothing at all
    (`Session.results_of_isHidden`);
  * `Session.fencedText_hidden`: so it is between two fences.
-/
import MentionCommands.Proofs.Code.FencedText
import MentionCommands.Proofs.Dispatch.Ambiguity
import MentionCommands.Proofs.Markdown.CommonMark

namespace MentionCommands

/-- Every mention starts in code. -/
def IsHidden (t : Text) (tokens : List BlockToken) (bot : Text) : Prop :=
  ∀ i, MentionAt t bot i → (CodeIndex.ofTokens t tokens).Covers i

namespace Session

variable {s : Session} {t bot : Text} {tokens : List BlockToken} {grammars : List Grammar}

/-- **No grammar gets a hidden command**, be it well-formed or not. -/
theorem Reachable.grammar?_eq_none (h : IsHidden t tokens bot)
    (hs : s.Reachable t tokens bot grammars) : s.report.grammar? = none := by
  by_contra hsome
  rw [← Ne, Option.ne_none_iff_isSome] at hsome
  obtain ⟨start, o, hd, -⟩ := hs.isOn.dispatches_of_report hsome
  refine hd.free.not_covers (Nat.le_refl start) ?_ (h start hd.first.1.2)
  simp [marker]

theorem Reachable.report_of_isHidden (h : IsHidden t tokens bot)
    (hs : s.Reachable t tokens bot builtInGrammars) : s.report = .nothing := by
  cases hr : s.report with
  | nothing => rfl
  | matched | rejected =>
    have hnone := hs.grammar?_eq_none h
    rw [hr] at hnone
    cases hnone
  | ambiguous a =>
    have hseveral := (hs.report_eq_ambiguous_iff.1 hr).several
    have hsole := length_claimants_builtInGrammars_le (streamBehind t bot a.position)
    omega

/-- **A comment whose mentions are all hidden holds no command.** -/
theorem results_of_isHidden (h : IsHidden t tokens bot) :
    (ofTokens t tokens bot builtInGrammars).results = some [] :=
  results_of_nothing ((reachable_ofTokens t tokens bot builtInGrammars).report_of_isHidden h)

/-! ## Between fences -/

section
variable {parse : BlockParser} {n : Nat} {body : Text}

theorem isHidden_fencedText (hlines : parse.KeepsLines) (hfences : parse.ReadsFences)
    (hparse : parse (fencedText n body) = some tokens) (hn : 3 ≤ n) (hbody : ¬ ticks n <:+: body)
    (bot : Text) : IsHidden (fencedText n body) tokens bot := by
  intro i hi
  have hlength := hi.add_le_length
  simp only [marker, List.length_cons] at hlength
  refine ⟨⟨0, (fencedText n body).length⟩, ?_, Nat.zero_le i, by simp only; omega⟩
  rw [spans_fencedText hlines hfences hparse hn hbody]
  exact List.mem_singleton_self _

/-- **A fence hides everything** from a parser that reads fenced code as Markdown does.  Between two
    lines of three backticks or more, a body without such a run is code through and through:
    whatever else it holds, and whatever the grammars are, no step reports a command or a refusal,
    and with the built-in grammars there is no report at all. -/
theorem fencedText_hidden (hlines : parse.KeepsLines) (hfences : parse.ReadsFences)
    (hparse : parse (fencedText n body) = some tokens) (hn : 3 ≤ n) (hbody : ¬ ticks n <:+: body)
    (bot : Text) :
    (CodeIndex.ofTokens (fencedText n body) tokens).spans = [⟨0, (fencedText n body).length⟩] ∧
    (∀ (grammars : List Grammar) (k : Nat),
      (∀ name command,
        (Session.next^[k] (ofTokens (fencedText n body) tokens bot grammars)).report ≠
          .matched name command) ∧
      ∀ name error,
        (Session.next^[k] (ofTokens (fencedText n body) tokens bot grammars)).report ≠
          .rejected name error) ∧
    (ofTokens (fencedText n body) tokens bot builtInGrammars).results = some [] := by
  have hhidden := isHidden_fencedText hlines hfences hparse hn hbody bot
  refine ⟨spans_fencedText hlines hfences hparse hn hbody, fun grammars k => ?_,
    results_of_isHidden hhidden⟩
  have hs : (Session.next^[k] (ofTokens (fencedText n body) tokens bot grammars)).Reachable
      (fencedText n body) tokens bot grammars := ⟨k, rfl⟩
  have hnone := hs.grammar?_eq_none hhidden
  constructor
  · intro name command hr
    rw [hr] at hnone
    cases hnone
  · intro name error hr
    rw [hr] at hnone
    cases hnone

end

/-- A shorter fence, a row of a table and a command in the body change nothing. -/
theorem fencedText_hidden_mixed :
    let body := "```\r| ` | b |\r\n|--|--|\n  > * @bot claim.\n\t\r".toList
    let tokens : List BlockToken := [⟨.fence, some (0, 7)⟩]
    commonMark.KeepsLines ∧ commonMark.ReadsFences ∧
    commonMark (fencedText 4 body) = some tokens ∧ 3 ≤ 4 ∧ ¬ ticks 4 <:+: body ∧
    (ofTokens (fencedText 4 body) tokens "bot".toList builtInGrammars).results = some [] := by
  intro body tokens
  have hparse : commonMark (fencedText 4 body) = some tokens := by decide +kernel
  have hbody : ¬ ticks 4 <:+: body := by decide +kernel
  exact ⟨keepsLines_commonMark, readsFences_commonMark, hparse, by decide, hbody,
    (fencedText_hidden keepsLines_commonMark readsFences_commonMark hparse (by decide) hbody
      "bot".toList).2.2⟩

end Session

end MentionCommands
