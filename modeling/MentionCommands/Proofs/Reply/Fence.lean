/-
  The message in a reply to a refused command, and the fence around it.

  * `fencedReply`: a message, what the reply puts before it, and what follows; `messageRange` is
    where the message stands;
  * `plainFront_replyFront`: the fence opens behind lines that are blocks of their own, so a parser
    that reads fenced code takes it for one.  The reply closes it behind the message, but a line of
    the message may do so before (`fence_mem`);
  * `Session.message_in_fence_iff`: the message lies in the block of the fence just if none of its
    lines closes the fence.
-/
import MentionCommands.Reply
import MentionCommands.Proofs.Dispatch.Rule
import MentionCommands.Proofs.Markdown.CommonMark

namespace MentionCommands

/-! ## The parts of a reply -/

/-- What stands before the message. -/
def rejectionLead (kind : Text) : Text :=
  "### ⚠️ Invalid `".toList ++ kind ++ "` Command\n\n".toList ++
    "I couldn't understand the command in your comment:\n\n```\n".toList

/-- A message in its fence, with what follows. -/
def fencedReply (kind message tail : Text) : Text :=
  rejectionLead kind ++ (message ++ ['\n'] ++ ("```\n".toList ++ tail))

/-- Where a message stands in its reply. -/
def messageRange (kind message : Text) : Span :=
  ⟨(rejectionLead kind).length, (rejectionLead kind).length + message.length⟩

theorem of_messageRange (kind message tail : Text) :
    (messageRange kind message).of (fencedReply kind message tail) = message := by
  rw [messageRange, Span.of, Text.slice, fencedReply, List.drop_left, Nat.add_sub_cancel_left,
    List.append_assoc, List.take_left]

theorem exists_rejection_eq (bot : Text) (grammars : List Grammar) (kind : Text)
    (error : Diagnostic) : ∃ tail, rejection bot grammars (some kind) (some (.diagnostic error)) =
      fencedReply kind error.message tail := by
  have hend : "\n```\n\n**Here's how to use it correctly:**\n\n".toList =
      ['\n'] ++ ("```\n".toList ++ "\n**Here's how to use it correctly:**\n\n".toList) := by
    decide +kernel
  have hparts : ∃ help, rejection bot grammars (some kind) (some (.diagnostic error)) =
      rejectionLead kind ++ error.message ++
        "\n```\n\n**Here's how to use it correctly:**\n\n".toList ++ help :=
    ⟨_, rfl⟩
  obtain ⟨help, hparts⟩ := hparts
  rw [hparts, hend]
  simp only [fencedReply, List.append_assoc]
  exact ⟨_, rfl⟩

theorem isSuffix_rejectionLead (kind : Text) : ['\n'] <:+ rejectionLead kind := by
  have h : ['\n'] <:+ "I couldn't understand the command in your comment:\n\n```\n".toList := by
    decide +kernel
  exact h.trans (List.suffix_append ..)

theorem isSuffix_message (error : Diagnostic) : ['.'] <:+ error.message := by
  have h : ['.'] <:+ "'...".toList := by decide
  exact h.trans (List.suffix_append ..)

/-! ## The block of the fence -/

/-- The text of the heading. -/
def rejectionHeading (kind : Text) : Text := "⚠️ Invalid `".toList ++ kind ++ "` Command".toList

/-- The lines before the fence. -/
def replyFront (kind : Text) : List Text :=
  [List.replicate 3 '#' ++ ' ' :: (rejectionHeading kind ++ ['\n']), ['\n'],
    "I couldn't understand the command in your comment:\n".toList, ['\n']]

theorem length_replyFront (kind : Text) : (replyFront kind).length = 4 := rfl

theorem lines_rejectionLead {g : Grammar} (hg : g ∈ builtInGrammars) :
    (rejectionLead g.kind).lines = replyFront g.kind ++ [ticks 3 ++ ['\n']] := by
  simp only [builtInGrammars, List.mem_cons, List.not_mem_nil, or_false] at hg
  rcases hg with rfl | rfl
  · decide +kernel
  · decide +kernel

theorem plainFront_replyFront {g : Grammar} (hg : g ∈ builtInGrammars) :
    PlainFront (replyFront g.kind) := by
  have hheading : ∀ c ∈ rejectionHeading g.kind, isPlain c = true := by
    rw [← List.all_eq_true]
    simp only [builtInGrammars, List.mem_cons, List.not_mem_nil, or_false] at hg
    rcases hg with rfl | rfl
    · decide +kernel
    · decide +kernel
  have hintro : ∃ c text, "I couldn't understand the command in your comment:\n".toList =
      c :: (text ++ ['\n']) ∧ c.isAlpha = true ∧ ∀ d ∈ text, isPlain d = true := by
    refine ⟨'I', " couldn't understand the command in your comment:".toList, ?_, ?_, ?_⟩
    · decide +kernel
    · decide
    · exact List.all_eq_true.1 (by decide +kernel)
  obtain ⟨c, text, hintro, hc, htext⟩ := hintro
  rw [replyFront, hintro]
  exact .heading (by decide) hheading (.blank (.prose hc htext .nil))

section

variable {g : Grammar} {message tail : Text} {parse : BlockParser} {tokens : List BlockToken}

theorem lines_fencedReply (hg : g ∈ builtInGrammars) (message tail : Text) :
    (fencedReply g.kind message tail).lines = replyFront g.kind ++
      (ticks 3 ++ ['\n']) :: ((message ++ ['\n']).lines ++ "```\n".toList :: tail.lines) := by
  have hend : Text.lines ("```\n".toList ++ tail) = "```\n".toList :: tail.lines := by
    have hone : Text.lines "```\n".toList = ["```\n".toList] := by decide +kernel
    rw [Text.lines_append (by decide), hone]
    rfl
  rw [fencedReply, Text.lines_append (isSuffix_rejectionLead _), lines_rejectionLead hg,
    Text.lines_append (List.suffix_append ..), hend, List.append_assoc]
  rfl

/-- **The block that the fence opens** goes on through the first line that closes it. -/
theorem fence_mem (hfences : parse.ReadsFences) (hg : g ∈ builtInGrammars)
    (hparse : parse (fencedReply g.kind message tail) = some tokens) {inside behind : List Text}
    {closing : Text}
    (hlines : (message ++ ['\n']).lines ++ "```\n".toList :: tail.lines =
      inside ++ closing :: behind)
    (hinside : ∀ line ∈ inside, closesFence 3 line = false)
    (hclosing : closesFence 3 closing = true) :
    ⟨.fence, some (4, 4 + inside.length + 2)⟩ ∈ tokens := by
  have hreply := lines_fencedReply hg message tail
  rw [hlines] at hreply
  have hmem := hfences _ tokens 3 (replyFront g.kind) inside behind closing hparse
    (plainFront_replyFront hg) (Nat.le_refl 3) hreply hinside hclosing
  rwa [length_replyFront] at hmem

/-! ## The message and the block -/

/-- A range of a text lies in one block of fenced code. -/
def LiesInBlock (t : Text) (tokens : List BlockToken) (range : Span) : Prop :=
  ∃ first last, ⟨.fence, some (first, last)⟩ ∈ tokens ∧
    t.lineOffset first ≤ range.start ∧ range.stop ≤ t.lineOffset last

theorem LiesInBlock.contains {t : Text} {range : Span} (h : LiesInBlock t tokens range) :
    (CodeIndex.ofTokens t tokens).Contains range := by
  obtain ⟨first, last, hmem, hstart, hstop⟩ := h
  refine ⟨lineRange t first last, CodeIndex.mem_spans_ofTokens.2 ⟨_, hmem, ?_⟩, ?_, hstop⟩
  · rw [BlockToken.spans_fence]
    exact List.mem_singleton_self _
  · exact (t.monotone_lineOffset (Nat.min_le_left ..)).trans hstart

theorem lineOffset_fencedReply (hg : g ∈ builtInGrammars) (tail : Text) {front back : List Text}
    (h : (message ++ ['\n']).lines = front ++ back) :
    (fencedReply g.kind message tail).lineOffset (5 + front.length) =
      (rejectionLead g.kind).length + front.flatten.length := by
  have hreply : (fencedReply g.kind message tail).lines =
      ((rejectionLead g.kind).lines ++ front) ++ (back ++ "```\n".toList :: tail.lines) := by
    rw [lines_fencedReply hg, lines_rejectionLead hg, h]
    simp only [List.append_assoc, List.cons_append, List.nil_append]
  have hfive : (rejectionLead g.kind).lines.length = 5 := by
    rw [lines_rejectionLead hg]
    rfl
  have hoffset := Text.lineOffset_of_lines hreply
  rwa [List.length_append, hfive, List.flatten_append, List.length_append, Text.flatten_lines]
    at hoffset

theorem lineOffset_five (hg : g ∈ builtInGrammars) (message tail : Text) :
    (fencedReply g.kind message tail).lineOffset 5 = (rejectionLead g.kind).length := by
  have h := lineOffset_fencedReply hg tail (List.nil_append (message ++ ['\n']).lines).symm
  rwa [List.length_nil, List.flatten_nil, List.length_nil, Nat.add_zero, Nat.add_zero] at h

theorem liesInBlock_of_forall (hfences : parse.ReadsFences) (hg : g ∈ builtInGrammars)
    (hparse : parse (fencedReply g.kind message tail) = some tokens)
    (h : ∀ line ∈ (message ++ ['\n']).lines, closesFence 3 line = false) :
    LiesInBlock (fencedReply g.kind message tail) tokens (messageRange g.kind message) := by
  have hmem := fence_mem hfences hg hparse rfl h (by decide +kernel)
  have hmono := (fencedReply g.kind message tail).monotone_lineOffset
  have hfive := lineOffset_five hg message tail
  have hstop := lineOffset_fencedReply hg tail (List.append_nil (message ++ ['\n']).lines).symm
  rw [Text.flatten_lines, List.length_append, List.length_singleton] at hstop
  have hle := hmono (show 5 + (message ++ ['\n']).lines.length ≤
    4 + (message ++ ['\n']).lines.length + 2 by omega)
  refine ⟨4, _, hmem, (hmono (by decide)).trans hfive.le, ?_⟩
  simp only [messageRange]
  omega

/-- What ends in a dot goes on behind a line of it that closes the fence. -/
theorem two_le_of_closesFence {body line : Text} {front back : List Text}
    (h : (body ++ ['.', '\n']).lines = front ++ line :: back) (hline : closesFence 3 line = true) :
    2 ≤ back.flatten.length := by
  by_contra! hlt
  have hflat : front.flatten ++ (line ++ back.flatten) = body ++ ['.', '\n'] := by
    rw [← Text.flatten_lines (body ++ _), h, List.flatten_append, List.flatten_cons]
  have hlen := congrArg List.length hflat
  simp only [List.length_append, List.length_cons, List.length_nil] at hlen
  have hthree : 3 ≤ line.length := (isInfix_of_closesFence hline).length_le
  have hdot : '.' ∈ line := by
    have hget := congrArg (·[body.length]?) hflat
    simp only [List.getElem?_append_right (Nat.le_refl _), Nat.sub_self] at hget
    rw [List.getElem?_append_right (by omega), List.getElem?_append_left (by omega)] at hget
    exact List.mem_of_getElem? hget
  have hmem : line ∈ (body ++ ['.', '\n']).lines := by
    rw [h]
    exact List.mem_append_right _ List.mem_cons_self
  -- a dot is no backtick, no blank and no break
  by_cases hbody : '.' ∈ line.withoutBreak
  · have := mem_of_closesFence hline hbody
    revert this
    decide
  · have := Text.isLineBreak_of_mem_line hmem hdot hbody
    revert this
    decide

/-- The first line that closes the fence, if some line does. -/
theorem exists_first_closing {ls : List Text} (h : ¬ ∀ line ∈ ls, closesFence 3 line = false) :
    ∃ inside closing behind, ls = inside ++ closing :: behind ∧ closesFence 3 closing = true ∧
      ∀ line ∈ inside, closesFence 3 line = false := by
  have hsome : (ls.find? (closesFence 3)).isSome = true := by
    rw [List.find?_isSome]
    simpa using h
  obtain ⟨closing, hfind⟩ := Option.isSome_iff_exists.1 hsome
  obtain ⟨hclosing, inside, behind, hsplit, hinside⟩ := List.find?_eq_some_iff_append.1 hfind
  exact ⟨inside, closing, behind, hsplit, hclosing, by simpa using hinside⟩

/-- More of the message follows behind a line of it that closes the fence. -/
theorem lineOffset_lt_stop (hg : g ∈ builtInGrammars) (tail : Text) (hdot : ['.'] <:+ message)
    {inside behind : List Text} {closing : Text}
    (hsplit : (message ++ ['\n']).lines = inside ++ closing :: behind)
    (hclosing : closesFence 3 closing = true) :
    (fencedReply g.kind message tail).lineOffset (4 + inside.length + 2) <
      (messageRange g.kind message).stop := by
  have hend := lineOffset_fencedReply hg tail
    (hsplit.trans (List.append_cons inside closing behind))
  rw [List.length_append, List.length_singleton] at hend
  have hlast : 4 + inside.length + 2 = 5 + (inside.length + 1) := by omega
  have hrest : 2 ≤ behind.flatten.length := by
    obtain ⟨body, rfl⟩ := hdot
    rw [List.append_assoc] at hsplit
    exact two_le_of_closesFence hsplit hclosing
  have hflat := congrArg List.length (Text.flatten_lines (message ++ ['\n']))
  rw [hsplit, List.append_cons, List.flatten_append, List.length_append, List.length_append,
    List.length_singleton] at hflat
  rw [hlast, hend]
  simp only [messageRange]
  omega

/-- Code that holds the message goes on behind each of its lines. -/
theorem closesFence_eq_false_of_contains (hkeeps : parse.KeepsLines) (hfences : parse.ReadsFences)
    (hg : g ∈ builtInGrammars) (hparse : parse (fencedReply g.kind message tail) = some tokens)
    (hdot : ['.'] <:+ message)
    (h : (CodeIndex.ofTokens (fencedReply g.kind message tail) tokens).Contains
      (messageRange g.kind message)) :
    ∀ line ∈ (message ++ ['\n']).lines, closesFence 3 line = false := by
  by_contra hcloses
  obtain ⟨inside, closing, behind, hsplit, hclosing, hinside⟩ := exists_first_closing hcloses
  have hlines : (message ++ ['\n']).lines ++ "```\n".toList :: tail.lines =
      inside ++ closing :: (behind ++ "```\n".toList :: tail.lines) := by
    rw [hsplit, List.append_assoc, List.cons_append]
  have hmem := fence_mem hfences hg hparse hlines hinside hclosing
  have hmono := (fencedReply g.kind message tail).monotone_lineOffset
  have hfive := lineOffset_five hg message tail
  -- the block ends behind the line, while more of the message follows
  have hstop := lineOffset_lt_stop hg tail hdot hsplit hclosing
  -- the message starts in the block, so no code that holds it goes further
  have hfour : (fencedReply g.kind message tail).lineOffset 4 ≤
      (messageRange g.kind message).start := (hmono (by decide)).trans hfive.le
  have hcount : 4 + inside.length + 2 ≤ (fencedReply g.kind message tail).lines.length :=
    ((hkeeps _ _ hparse).exist _ hmem _ rfl).2
  have hstart : (messageRange g.kind message).start <
      (fencedReply g.kind message tail).lineOffset (4 + inside.length + 2) :=
    hfive.ge.trans_lt (Text.lineOffset_lt (by omega) (by omega))
  have hapart := hkeeps _ _ hparse
  generalize fencedReply g.kind message tail = reply at h hmem hstop hstart hfour hcount hapart
  have hblock : ⟨reply.lineOffset 4, reply.lineOffset (4 + inside.length + 2)⟩ ∈
      (CodeIndex.ofTokens reply tokens).spans := by
    refine CodeIndex.mem_spans_ofTokens.2 ⟨_, hmem, ?_⟩
    rw [BlockToken.spans_fence, lineRange_of_lt (by omega)]
    exact List.mem_singleton_self _
  have hle := hapart.stop_le_of_contains hblock ⟨hfour, hstart⟩ (hstart.trans hstop) h
  exact absurd (hle.trans_lt hstop) (Nat.lt_irrefl _)

end

/-! ## Refusals -/

namespace Session

variable {s : Session} {t bot : Text} {tokens : List BlockToken} {grammars : List Grammar}
  {kind : Text} {error : Diagnostic}

theorem IsOn.exists_of_rejected (h : s.IsOn t tokens bot grammars)
    (hr : s.report = .rejected kind error) : ∃ g ∈ grammars, g.kind = kind := by
  obtain ⟨start, o, hd, hr', -⟩ := h.dispatches_of_report (by rw [hr]; rfl)
  obtain ⟨front, g, back, rfl, ho, -⟩ := hd.sole
  refine ⟨g, by simp, ?_⟩
  have hkind := report_eq_rejected (hr'.symm.trans hr)
  rw [← ho] at hkind
  exact congrArg Outcome.grammar hkind

/-- **The message of a refusal lies in the block that the reply opens for it**, for a parser that
    reads fenced code as Markdown does, just if none of its lines closes the fence; the message
    shows a part of the comment, which may bring such a line.  If one does, no code of the reply
    holds the whole message. -/
theorem message_in_fence_iff {parse : BlockParser} (hlines : parse.KeepsLines)
    (hfences : parse.ReadsFences) (hs : s.Reachable t tokens bot builtInGrammars)
    (hr : s.report = .rejected kind error) :
    ∃ reply, s.report.reply? bot = some reply ∧
      (messageRange kind error.message).of reply = error.message ∧
      ∀ blocks, parse reply = some blocks →
        (LiesInBlock reply blocks (messageRange kind error.message) ↔
          ∀ line ∈ (error.message ++ ['\n']).lines, closesFence 3 line = false) ∧
        ((CodeIndex.ofTokens reply blocks).Contains (messageRange kind error.message) →
          LiesInBlock reply blocks (messageRange kind error.message)) := by
  obtain ⟨g, hg, rfl⟩ := hs.isOn.exists_of_rejected hr
  obtain ⟨tail, htail⟩ := exists_rejection_eq bot builtInGrammars g.kind error
  refine ⟨fencedReply g.kind error.message tail, ?_, of_messageRange .., fun blocks hparse => ?_⟩
  · rw [hr, ← htail]
    rfl
  · have hopen := closesFence_eq_false_of_contains hlines hfences hg hparse (isSuffix_message error)
    have hlies := liesInBlock_of_forall hfences hg hparse
    exact ⟨⟨fun h => hopen h.contains, hlies⟩, fun h => hlies (hopen h)⟩

/-- The message of a refused assignment at the end of a comment lies in its block. -/
theorem message_in_fence_assign :
    let t := "@bot assign".toList
    let tokens : List BlockToken := [⟨.inline, some (0, 1)⟩]
    let message := "...'bot assign' | error: expected a user to assign at >| ''...".toList
    commonMark t = some tokens ∧ commonMark.KeepsLines ∧ commonMark.ReadsFences ∧
    ∃ reply blocks,
      (ofTokens t tokens "bot".toList builtInGrammars).report.reply? "bot".toList = some reply ∧
      commonMark reply = some blocks ∧
      (messageRange "assign".toList message).of reply = message ∧
      LiesInBlock reply blocks ⟨89, 151⟩ := by
  intro t tokens message
  have hr : (ofTokens t tokens "bot".toList builtInGrammars).report =
      .rejected "assign".toList ⟨.grammar, AssignFault.missingUser.reason, t, 11⟩ := by
    decide +kernel
  have hmessage : Diagnostic.message ⟨.grammar, AssignFault.missingUser.reason, t, 11⟩ =
      message := by
    decide +kernel
  have hrange : messageRange "assign".toList message = ⟨89, 151⟩ := by
    decide +kernel
  obtain ⟨reply, hreply, hof, hblocks⟩ := message_in_fence_iff keepsLines_commonMark
    readsFences_commonMark (reachable_ofTokens t tokens "bot".toList builtInGrammars) hr
  obtain ⟨blocks, hparse⟩ : ∃ blocks, commonMark reply = some blocks := ⟨_, rfl⟩
  rw [hmessage] at hof hblocks
  have hlies := (hblocks blocks hparse).1.2 (by decide +kernel)
  rw [hrange] at hlies
  exact ⟨by decide +kernel, keepsLines_commonMark, readsFences_commonMark, reply, blocks, hreply,
    hparse, hof, hlies⟩

/-- A fence in the comment, behind the command, closes that of the reply and leaves the end of the
    message outside. -/
theorem message_leaves_fence :
    ¬ ∀ (t bot kind reply : Text) (tokens blocks : List BlockToken) (error : Diagnostic)
      (s : Session), commonMark t = some tokens → s.Reachable t tokens bot builtInGrammars →
      s.report = .rejected kind error → s.report.reply? bot = some reply →
      commonMark reply = some blocks →
      (CodeIndex.ofTokens reply blocks).Contains (messageRange kind error.message) := by
  intro h
  have hparse : commonMark "@bot assign\n```\n".toList =
      some [⟨.inline, some (0, 1)⟩, ⟨.fence, some (1, 2)⟩] := by
    decide +kernel
  have hr : (ofTokens "@bot assign\n```\n".toList
      [⟨.inline, some (0, 1)⟩, ⟨.fence, some (1, 2)⟩] "bot".toList builtInGrammars).report =
      .rejected assignGrammar.kind
        ⟨.grammar, AssignFault.missingUser.reason, "@bot assign\n```\n".toList, 11⟩ := by
    decide +kernel
  obtain ⟨tail, htail⟩ := exists_rejection_eq "bot".toList builtInGrammars assignGrammar.kind
    ⟨.grammar, AssignFault.missingUser.reason, "@bot assign\n```\n".toList, 11⟩
  obtain ⟨blocks, hblocks⟩ : ∃ blocks, commonMark (rejection "bot".toList builtInGrammars
      (some assignGrammar.kind) (some (.diagnostic
        ⟨.grammar, AssignFault.missingUser.reason, "@bot assign\n```\n".toList, 11⟩))) =
      some blocks := ⟨_, rfl⟩
  have hcode := h _ _ _ _ _ _ _ _ hparse (reachable_ofTokens ..) hr (by rw [hr]; rfl) hblocks
  rw [htail] at hcode hblocks
  have hopen := closesFence_eq_false_of_contains keepsLines_commonMark readsFences_commonMark
    List.mem_cons_self hblocks (isSuffix_message _) hcode "```\n".toList (by decide +kernel)
  revert hopen
  decide +kernel

end Session

end MentionCommands
