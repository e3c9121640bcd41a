/-
  Transcripts: comments that hold commands only, one in each line.

  * `commandLine` is the line of a command, `transcript` the comment with some commands;
  * `soleClaim_written`: the grammar of a command alone claims it, and stops behind its dot;
  * `Session.IsOn.step_line`: a step reads the next line;
  * `Session.results_transcript`: so dispatch reads just the commands that were written.
-/
import MentionCommands.Proofs.Dispatch.Rule
import MentionCommands.Proofs.Grammar.Written

namespace MentionCommands

/-! ## Lines -/

/-- The kind of a command: that of the grammar which reads it, or the word that it is known by. -/
def Command.kind : Command → Text
  | assign _ => assignGrammar.kind
  | relabel _ => relabelGrammar.kind
  | plain word => word

/-- A command to a bot, as it stands in a line of its own. -/
def commandLine (bot : Text) (c : Command) : Text :=
  marker bot ++ ' ' :: (c.written ++ ['.', '\n'])

/-- The comment with some commands to a bot. -/
def transcript (bot : Text) (commands : List Command) : Text :=
  commands.flatMap (commandLine bot)

example : transcript "bot".toList
      [.assign .own, .relabel [⟨.add, "a \"b\"".toList⟩, ⟨.remove, "c".toList⟩]] =
    "@bot claim.\n@bot modify labels: \"a \\\"b\\\"\", -c.\n".toList := by
  decide +kernel

section
variable {g : Grammar} {s : TokenStream} {p : Nat}

theorem attempt_of_some {c : Command} (h : g.parse s = ⟨.ok (some c), p⟩) :
    g.attempt s = ⟨g.kind, .matched c, p⟩ := by
  rw [Grammar.attempt, h]
  rfl

theorem claimed_of_none (h : g.parse s = ⟨.ok none, p⟩) : (g.attempt s).claimed = false := by
  rw [Grammar.attempt, h]
  rfl

end

/-- **The grammar of a command alone claims it**, and stops behind its dot. -/
theorem soleClaim_written {c : Command} (h : c.IsWritable) {s : TokenStream} {rest : Text}
    (hs : s.remaining = ' ' :: (c.written ++ '.' :: '\n' :: rest)) :
    SoleClaim builtInGrammars s ⟨c.kind, .matched c, s.position + (c.written.length + 2)⟩ := by
  cases c with
  | assign a =>
    have hs : s.remaining = ' ' :: (a.written ++ '.' :: '\n' :: rest) := hs
    have hread : assignGrammar.parse s =
        ⟨.ok (some (.assign a)), s.position + (a.written.length + 2)⟩ := by
      show ((readAssignment (Tokens.ofText s.remaining)).map Command.assign).parse s = _
      rw [hs, readAssignment_written h]
      rfl
    have hpass : relabelGrammar.parse s = ⟨.ok none, s.position⟩ := by
      show ((readRelabeling (Tokens.ofText s.remaining)).map Command.relabel).parse s = _
      rw [hs, readRelabeling_assign]
      rfl
    exact ⟨[], assignGrammar, [relabelGrammar], rfl, attempt_of_some hread, rfl,
      List.forall_mem_singleton.2 (claimed_of_none hpass)⟩
  | relabel changes =>
    have hread : relabelGrammar.parse s = ⟨.ok (some (.relabel changes)),
        s.position + ((Command.relabel changes).written.length + 2)⟩ := by
      show ((readRelabeling (Tokens.ofText s.remaining)).map Command.relabel).parse s = _
      rw [hs, readRelabeling_written h.1 h.2]
      rfl
    have hpass : assignGrammar.parse s = ⟨.ok none, s.position⟩ := by
      show ((readAssignment (Tokens.ofText s.remaining)).map Command.assign).parse s = _
      rw [hs, readAssignment_relabel]
      rfl
    exact ⟨[assignGrammar], relabelGrammar, [], rfl, attempt_of_some hread, rfl,
      List.forall_mem_singleton.2 (claimed_of_none hpass)⟩
  | plain word => exact h.elim

/-! ## Mentions -/

/-- What may stand between the cursor and the next line: nothing at the start of a comment, and a
    line end behind a command. -/
def IsGap (cursor : Nat) (gap : Text) : Prop := gap = [] ∧ cursor = 0 ∨ gap = ['\n']

section
variable {t bot gap rest : Text} {cursor : Nat}

/-- The next mention stands at the start of the next line. -/
theorem isLeast_mention (hbot : WordSafe bot) (hgap : IsGap cursor gap)
    (ht : t.drop cursor = gap ++ (marker bot ++ ' ' :: rest)) :
    IsLeast {i | cursor ≤ i ∧ MentionAt t bot i} (cursor + gap.length) := by
  have htoken : Lexeme.ofText (t.drop (cursor + gap.length)) = .token ⟨.word, 0, marker bot⟩ := by
    rw [← List.drop_drop, ht, List.drop_left]
    exact Lexeme.ofText_word hbot.mention rfl (takeWord_space rfl _)
  rcases hgap with ⟨rfl, rfl⟩ | rfl
  · exact ⟨⟨Nat.le_refl 0, nofun, htoken⟩, fun i hi => hi.1⟩
  · have hbreak : t[cursor]? = some '\n' := by rw [← List.head?_drop, ht]; rfl
    refine ⟨⟨Nat.le_add_right .., ?_, htoken⟩, ?_⟩
    · rintro j c ⟨⟩ hc
      cases hbreak.symm.trans hc
      decide
    · rintro i ⟨hle, hi⟩
      refine Nat.lt_of_le_of_ne hle ?_
      rintro rfl
      obtain ⟨rest', ht'⟩ := hi.drop_eq
      rw [ht] at ht'
      cases ht'

/-- Behind the last line there is no mention. -/
theorem not_mentionAt (hbot : WordSafe bot) (hgap : IsGap cursor gap) (ht : t.drop cursor = gap)
    {i : Nat} (hle : cursor ≤ i) : ¬ MentionAt t bot i := by
  intro hi
  have hlength := hi.add_le_length
  have hpos := List.length_pos_iff.2 hbot.ne_nil
  have hdrop := congrArg List.length ht
  have hgap' : gap.length ≤ 1 := by
    rcases hgap with ⟨rfl, -⟩ | rfl
    · exact Nat.zero_le 1
    · exact Nat.le_refl 1
  simp only [List.length_drop, marker, List.length_cons] at hdrop hlength
  omega

end

/-! ## Reading a transcript -/

namespace Session

variable {s : Session} {t bot : Text} {tokens : List BlockToken}

/-- **A step reads the next line** of a comment without code, and leaves the cursor in front of its
    line end. -/
theorem IsOn.step_line (h : s.IsOn t tokens bot builtInGrammars) (hf : s.fault = none)
    (hcode : (CodeIndex.ofTokens t tokens).spans = []) {start : Nat}
    (hfirst : IsLeast {i | s.cursor ≤ i ∧ MentionAt t bot i} start) {c : Command}
    (hc : c.IsWritable) {rest : Text} (ht : t.drop start = commandLine bot c ++ rest) :
    s.report = .matched c.kind c ∧ s.next.fault = none ∧ t.drop s.next.cursor = '\n' :: rest := by
  have hbehind : t.drop (start + (marker bot).length) =
      ' ' :: (c.written ++ '.' :: '\n' :: rest) := by
    rw [← List.drop_drop, ht, commandLine]
    simp only [List.append_assoc, List.drop_left, List.cons_append, List.nil_append]
  have hd : Dispatches t tokens bot builtInGrammars s.cursor start
      ⟨c.kind, .matched c, start + (marker bot).length + (c.written.length + 2)⟩ := by
    refine ⟨hfirst, soleClaim_written hc hbehind, ?_⟩
    intro span hspan
    rw [hcode] at hspan
    exact absurd hspan List.not_mem_nil
  obtain ⟨hr, hn⟩ := h.step_of_dispatches hf hd
  refine ⟨hr, ?_, ?_⟩
  · rw [hn]
    exact hf
  · rw [hn]
    show t.drop (start + (marker bot).length + (c.written.length + 2)) = _
    rw [← List.drop_drop, hbehind, List.drop_succ_cons, ← List.drop_drop, List.drop_left]
    rfl

/-- The lines ahead are read one after another. -/
theorem IsOn.results_lines (h : s.IsOn t tokens bot builtInGrammars) (hf : s.fault = none)
    (hcode : (CodeIndex.ofTokens t tokens).spans = []) (hbot : WordSafe bot)
    {commands : List Command} (hw : ∀ c ∈ commands, c.IsWritable)
    {gap : Text} (hgap : IsGap s.cursor gap)
    (ht : t.drop s.cursor = gap ++ transcript bot commands) :
    s.results = some (commands.map fun c => .matched c.kind c) := by
  -- what stands ahead is kept by every step, except that a line end comes in front
  induction commands generalizing s gap with
  | nil =>
    have hnone : s.sighting? = none := by
      rw [sighting?, h.text, h.bot, nextMention?_eq_none_iff.2, Option.map_none]
      exact fun i hi => not_mentionAt hbot hgap (ht.trans (List.append_nil gap)) hi
    refine results_of_nothing ?_
    rw [report, step_of_sighting_none hf hnone]
  | cons c commands ih =>
    have hline : t.drop s.cursor = gap ++ (commandLine bot c ++ transcript bot commands) := ht
    have hfirst : IsLeast {i | s.cursor ≤ i ∧ MentionAt t bot i} (s.cursor + gap.length) := by
      rw [commandLine, List.append_assoc, List.cons_append] at hline
      exact isLeast_mention hbot hgap hline
    have hdrop : t.drop (s.cursor + gap.length) = commandLine bot c ++ transcript bot commands := by
      rw [← List.drop_drop, hline, List.drop_left]
    obtain ⟨hr, hf', hcursor⟩ := h.step_line hf hcode hfirst (hw c List.mem_cons_self) hdrop
    have hrest := ih h.next hf' (fun d hd => hw d (List.mem_cons_of_mem c hd)) (Or.inr rfl) hcursor
    rw [results_of_matched hr, hrest, hr]
    rfl

/-- **Dispatch reads just the commands that were written**: on a transcript without code it reports
    all its commands, in order, and nothing else. -/
theorem results_transcript {commands : List Command} (hbot : WordSafe bot)
    (hw : ∀ c ∈ commands, c.IsWritable)
    (hcode : (CodeIndex.ofTokens (transcript bot commands) tokens).spans = []) :
    (ofTokens (transcript bot commands) tokens bot builtInGrammars).results =
      some (commands.map fun c => .matched c.kind c) :=
  (isOn_ofTokens _ _ _ _).results_lines rfl hcode hbot hw (Or.inl ⟨rfl, rfl⟩) rfl

/-- A label may hold quotes, backslashes, line ends and other commands. -/
theorem results_transcript_label :
    let commands : List Command := [.assign (.user "a.b".toList),
      .relabel [⟨.add, "\"\\\n@bot claim.\n, \\\"".toList⟩, ⟨.remove, "v1.2".toList⟩]]
    let tokens : List BlockToken := [⟨.inline, some (0, 4)⟩]
    WordSafe "bot".toList ∧ (∀ c ∈ commands, c.IsWritable) ∧
    commonMark (transcript "bot".toList commands) = some tokens ∧
    (ofTokens (transcript "bot".toList commands) tokens "bot".toList builtInGrammars).results =
      some (commands.map fun c => .matched c.kind c) := by
  intro commands tokens
  have hbot : WordSafe "bot".toList := by decide
  have hw : ∀ c ∈ commands, c.IsWritable := by decide +kernel
  exact ⟨hbot, hw, by decide +kernel, results_transcript hbot hw (by decide +kernel)⟩

end Session

end MentionCommands
