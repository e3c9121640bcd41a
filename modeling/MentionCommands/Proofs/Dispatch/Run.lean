/-
  Runs: the commands of a comment, one after another.

  * `Session.Reads`: a step reports a command and moves the cursor behind it;
  * `Session.IsRun`: the reports up to the first one that is no command, with the region of the
    comment that each command comes from;
  * `Session.isRun_ofTokens`: if the grammars proceed, every comment has a run.  So dispatch ends,
    and its commands come from one region behind the other.
-/
import MentionCommands.Proofs.Dispatch.Repeat
import MentionCommands.Proofs.Dispatch.Rule
import MentionCommands.Proofs.Grammar.Progress

namespace MentionCommands.Session

variable {s : Session} {t bot : Text} {tokens : List BlockToken} {grammars : List Grammar}

/-! ## One command -/

/-- The next report is a command.  It comes from a region that starts at the first mention from the
    cursor on and holds this mention, and the cursor goes to the end of the region. -/
structure Reads (t bot : Text) (s : Session) (region : Span) : Prop where
  matched : ∃ name command, s.report = .matched name command
  first : IsLeast {i | s.cursor ≤ i ∧ MentionAt t bot i} region.start
  mention_le : region.start + (marker bot).length ≤ region.stop
  cursor : s.next.cursor = region.stop

theorem Reads.start_lt_stop {region : Span} (h : s.Reads t bot region) :
    region.start < region.stop := by
  have := h.mention_le
  simp only [marker, List.length_cons] at this
  omega

/-- A command that is reported comes from a region of the comment. -/
theorem IsOn.reads_of_matched (h : s.IsOn t tokens bot grammars) (hg : ∀ g ∈ grammars, g.Proceeds)
    {name : Text} {command : Command} (hr : s.report = .matched name command) :
    ∃ region, s.Reads t bot region ∧ region.stop ≤ t.length := by
  obtain ⟨start, o, hd, hr', hn⟩ := h.dispatches_of_report (by rw [hr]; rfl)
  have ho := report_eq_matched (hr'.symm.trans hr)
  have hcursor : s.next.cursor = o.position := by rw [hn, ho]; rfl
  obtain ⟨front, g, back, hmem, hattempt, -⟩ := hd.sole
  have hproceeds : g.Proceeds := hg g (by rw [hmem]; simp)
  obtain ⟨hle, hlength⟩ := hproceeds (streamBehind t bot start) hd.first.1.2.add_le_length
  rw [hattempt] at hle hlength
  exact ⟨⟨start, o.position⟩, ⟨⟨name, command, hr⟩, hd.first, hle, hcursor⟩, hlength⟩

theorem IsOn.cursor_next_le (h : s.IsOn t tokens bot grammars) (hg : ∀ g ∈ grammars, g.Proceeds)
    (hle : s.cursor ≤ t.length) : s.next.cursor ≤ t.length := by
  rcases s.matched_or_not with ⟨name, command, hr⟩ | hm
  · obtain ⟨region, hreads, hstop⟩ := h.reads_of_matched hg hr
    rwa [hreads.cursor]
  · rwa [(next_eq_self hm).1]

/-- **The cursor stays within the comment.** -/
theorem Reachable.cursor_le (h : s.Reachable t tokens bot grammars)
    (hg : ∀ g ∈ grammars, g.Proceeds) : s.cursor ≤ t.length :=
  (h.induction (Nat.zero_le _) fun _ hs hle => hs.cursor_next_le hg hle).2

/-! ## Runs -/

/-- The reports on a session: a command from each of the regions, which lie one behind the other,
    and at most one more report, of a refusal or an ambiguity. -/
structure IsRun (t bot : Text) (s : Session) (regions : List Span) (last : Option Report) :
    Prop where
  results : s.results =
    some ((List.range regions.length).map (fun i => (Session.next^[i] s).report) ++ last.toList)
  reads : ∀ (i : Nat) (h : i < regions.length), (Session.next^[i] s).Reads t bot regions[i]
  ends : (Session.next^[regions.length] s).report = last.getD .nothing
  fails : ∀ r ∈ last, r.isOk = false
  stacked : StackedSpans s.cursor t.length regions

/-- A session whose next report is no command has a run without regions. -/
theorem isRun_nil (h : ∀ name command, s.report ≠ .matched name command) :
    ∃ last, s.IsRun t bot [] last := by
  cases hok : s.report.isOk with
  | false =>
    refine ⟨some s.report, results_of_not_isOk hok, nofun, rfl, ?_, .nil⟩
    rintro _ ⟨⟩
    exact hok
  | true =>
    have hr : s.report = .nothing := by
      cases hr : s.report with
      | nothing => rfl
      | matched name command => exact absurd hr (h name command)
      | rejected | ambiguous => rw [hr] at hok; cases hok
    exact ⟨none, results_of_nothing hr, nofun, hr, nofun, .nil⟩

/-- A session whose next report is a command runs through its region and then as the next session
    does. -/
theorem Reads.isRun_cons {region : Span} {regions : List Span} {last : Option Report}
    (h : s.Reads t bot region) (hstop : region.stop ≤ t.length)
    (hrun : s.next.IsRun t bot regions last) : s.IsRun t bot (region :: regions) last where
  results := by
    obtain ⟨name, command, hr⟩ := h.matched
    rw [results_of_matched hr, hrun.results, List.length_cons, List.range_succ_eq_map]
    simp only [Option.map_some, List.map_cons, List.map_map]
    rfl
  reads := by
    intro i hi
    cases i with
    | zero => exact h
    | succ i => exact hrun.reads i (Nat.lt_of_succ_lt_succ hi)
  ends := hrun.ends
  fails := hrun.fails
  stacked := by
    refine .cons h.first.1.1 h.start_lt_stop hstop ?_
    rw [← h.cursor]
    exact hrun.stacked

/-- A session has a run, since every command takes the cursor closer to the end of the comment. -/
theorem IsOn.exists_isRun (h : s.IsOn t tokens bot grammars) (hg : ∀ g ∈ grammars, g.Proceeds) :
    ∃ regions last, s.IsRun t bot regions last := by
  induction hn : t.length - s.cursor using Nat.strong_induction_on generalizing s with
  | _ n ih =>
    rcases s.matched_or_not with ⟨name, command, hr⟩ | hm
    · obtain ⟨region, hreads, hstop⟩ := h.reads_of_matched hg hr
      have hcursor : s.cursor ≤ region.start := hreads.first.1.1
      have hlt := hreads.start_lt_stop
      obtain ⟨regions, last, hrun⟩ :=
        ih (t.length - s.next.cursor) (by rw [hreads.cursor]; omega) h.next rfl
      exact ⟨region :: regions, last, hreads.isRun_cons hstop hrun⟩
    · obtain ⟨last, hrun⟩ := isRun_nil hm
      exact ⟨[], last, hrun⟩

/-- **Dispatch ends, and its commands stand one behind the other.**  The reports on a comment are
    commands, each from a region of its own that holds its mention, and at most one refusal or
    ambiguity; the cursor stays within the comment; and there are only as many commands as there
    is room for mentions. -/
theorem isRun_ofTokens (t : Text) (tokens : List BlockToken) (bot : Text)
    (hg : ∀ g ∈ grammars, g ∈ builtInGrammars ∨ g.IsSample) :
    (∃ regions last, (ofTokens t tokens bot grammars).IsRun t bot regions last ∧
      regions.length * (marker bot).length ≤ t.length) ∧
    ∀ n, (Session.next^[n] (ofTokens t tokens bot grammars)).cursor ≤ t.length := by
  have hproceeds (g) (h : g ∈ grammars) : g.Proceeds := by
    rcases hg g h with h | h
    · exact proceeds_of_mem_builtInGrammars h
    · exact h.proceeds
  refine ⟨?_, fun n => Reachable.cursor_le ⟨n, rfl⟩ hproceeds⟩
  obtain ⟨regions, last, hrun⟩ := (isOn_ofTokens t tokens bot grammars).exists_isRun hproceeds
  refine ⟨regions, last, hrun, ?_⟩
  have hroom := hrun.stacked.length_mul_le (Nat.zero_le _) (m := (marker bot).length) ?_
  · rwa [ofTokens, Nat.zero_add] at hroom
  · intro region hmem
    obtain ⟨i, hi, rfl⟩ := List.getElem_of_mem hmem
    exact (hrun.reads i hi).mention_le

/-- A comment with two commands, of which one is for a sample grammar, has a run. -/
theorem isRun_two_commands :
    let t := "@bot claim.\n@bot ping".toList
    let tokens : List BlockToken := [⟨.inline, some (0, 2)⟩]
    commonMark t = some tokens ∧
    (∀ g ∈ [assignGrammar, pingGrammar], g ∈ builtInGrammars ∨ g.IsSample) ∧
    ∃ regions last,
      (ofTokens t tokens "bot".toList [assignGrammar, pingGrammar]).IsRun t "bot".toList regions
        last ∧
      regions.length * 4 ≤ 21 := by
  intro t tokens
  have hg : ∀ g ∈ [assignGrammar, pingGrammar], g ∈ builtInGrammars ∨ g.IsSample := by
    intro g hmem
    rcases List.mem_pair.1 hmem with rfl | rfl
    · exact Or.inl List.mem_cons_self
    · exact Or.inr .ping
  exact ⟨by decide +kernel, hg, (isRun_ofTokens t tokens "bot".toList hg).1⟩

end MentionCommands.Session
