/-
  Text between two fences.

  * `fencedText n body`: a body between two lines of `n` backticks;
  * `closesFence_eq_false`: no line of the body closes the block that the first line opens if the
    body has no such run, while the last line does (`closesFence_ticks`);
  * `spans_fencedText`: so all of the text is one span of code, wherever the body breaks its lines.
-/
import MentionCommands.Proofs.Markdown.Laws

namespace MentionCommands

/-- A body between two lines of so many backticks. -/
def fencedText (n : Nat) (body : Text) : Text := ticks n ++ '\n' :: (body ++ '\n' :: ticks n)

section
variable {n : Nat} {body : Text}

theorem isLineBreak_of_mem_ticks : ∀ c ∈ ticks n, isLineBreak c = false := by
  intro c hc
  rw [eq_backtick_of_mem_ticks hc]
  rfl

/-- A run of backticks closes what a line of as many opens. -/
theorem closesFence_ticks (hn : 0 < n) : closesFence n (ticks n) = true := by
  have hbody : (ticks n).withoutBreak = ticks n := by
    have h := Text.withoutBreak_append (u := []) (isLineBreak_of_mem_ticks (n := n)) rfl
    rwa [List.append_nil] at h
  have hspaces : Text.run ' ' (ticks n) = 0 := by
    obtain ⟨k, rfl⟩ := Nat.exists_eq_add_of_le' hn
    simp [Text.run, ticks, List.replicate_succ, backtick]
  have hrun : Text.run backtick (ticks n) = n := Text.run_replicate backtick n
  have hall : (ticks n).drop n = [] := List.drop_eq_nil_of_le (by simp [ticks])
  simp [closesFence, hbody, hspaces, hrun, hall]

/-- A line of the body that closes the block would bring a run of backticks. -/
theorem closesFence_eq_false (hn : 0 < n) (hbody : ¬ ticks n <:+: body) {line : Text}
    (hline : line ∈ (body ++ ['\n']).lines) : closesFence n line = false := by
  rw [← Bool.not_eq_true]
  intro hclose
  have hrun : ticks n <:+: body ++ ['\n'] := by
    rw [← Text.flatten_lines (body ++ ['\n'])]
    exact (isInfix_of_closesFence hclose).trans (List.infix_of_mem_flatten hline)
  rcases List.infix_concat_iff.1 hrun with hrun | hrun
  · -- a run at the very end would end in the line feed
    have hlast := hrun.getLast (ticks_ne_nil hn)
    rw [List.getLast_concat] at hlast
    have hmem := eq_backtick_of_mem_ticks (List.getLast_mem (ticks_ne_nil hn))
    exact absurd (hlast.symm.trans hmem) (by decide)
  · exact hbody hrun

theorem lines_fencedText (hn : 0 < n) (body : Text) :
    (fencedText n body).lines = (ticks n ++ ['\n']) :: ((body ++ ['\n']).lines ++ [ticks n]) := by
  rw [fencedText, Text.lines_line isLineBreak_of_mem_ticks, Text.lines_append_break,
    Text.lines_singleton (ticks_ne_nil hn) isLineBreak_of_mem_ticks]

variable {parse : BlockParser} {tokens : List BlockToken}

/-- **All of a fenced text is one span of code.** -/
theorem spans_fencedText (hlines : parse.KeepsLines) (hfences : parse.ReadsFences)
    (hparse : parse (fencedText n body) = some tokens) (hn : 3 ≤ n) (hbody : ¬ ticks n <:+: body) :
    (CodeIndex.ofTokens (fencedText n body) tokens).spans = [⟨0, (fencedText n body).length⟩] := by
  have hpos : 0 < n := Nat.zero_lt_of_lt hn
  have hall := lines_fencedText hpos body
  have hfence := hfences _ _ n [] _ [] _ hparse .nil hn hall
    (fun _ => closesFence_eq_false hpos hbody) (closesFence_ticks hpos)
  -- the block holds all lines
  have hlength : (body ++ ['\n']).lines.length + 2 = (fencedText n body).lines.length := by
    simp [hall]
  rw [List.length_nil, Nat.zero_add, hlength] at hfence
  refine (hlines _ _ hparse).spans_eq_singleton (CodeIndex.mem_spans_ofTokens.2 ⟨_, hfence, ?_⟩)
  rw [BlockToken.spans_fence, lineRange_of_lt (by simp [hall]), Text.lineOffset_length_lines]
  exact List.mem_singleton_self _

end

end MentionCommands
