/-
  The rules of Markdown, for the block parser that reads every text.

  * `keepsLines_commonMark`: since its leaves are stacked on the lines of the text;
  * `ignoresBreaks_commonMark`: since block rules see the same lines, whatever ends them;
  * `mem_leaves_of_front`: behind a `PlainFront` the other lines are read as if they stood alone;
  * `readsFences_commonMark` and `readsItems_commonMark`, by way of it.
-/
import MentionCommands.Proofs.Markdown.Laws
import MentionCommands.Proofs.Markdown.Listing

namespace MentionCommands

/-! ## Lines of tokens -/

theorem Leaf.source?_of_mem_tokens {leaf : Leaf} {token : BlockToken} (h : token ∈ leaf.tokens) :
    token.source? = some (leaf.first, leaf.last) := by
  cases leaf with
  | fenced | indented | prose => cases List.mem_singleton.1 h; rfl
  | row => rw [(List.mem_replicate.1 h).2]; rfl

theorem Leaf.eq_of_mem_tokens {leaf : Leaf} {a b : BlockToken} (ha : a ∈ leaf.tokens)
    (hb : b ∈ leaf.tokens) : a = b := by
  cases leaf with
  | fenced | indented | prose =>
    exact (List.mem_singleton.1 ha).trans (List.mem_singleton.1 hb).symm
  | row => exact (List.mem_replicate.1 ha).2.trans (List.mem_replicate.1 hb).2.symm

theorem keepsLines_commonMark : commonMark.KeepsLines := by
  rintro t _ ⟨⟩
  have hstack := stacked_leaves t
  refine ⟨fun token htoken lines hlines => ?_, List.pairwise_flatMap.2 ⟨fun leaf _ => ?_, ?_⟩⟩
  · obtain ⟨leaf, hleaf, htoken⟩ := List.mem_flatMap.1 htoken
    cases (Leaf.source?_of_mem_tokens htoken).symm.trans hlines
    exact (hstack.within leaf hleaf).2
  · exact List.pairwise_of_forall_mem_list fun a ha b hb => Or.inl (Leaf.eq_of_mem_tokens ha hb)
  · refine hstack.ordered.imp fun {leaf leaf'} hle a ha b hb => Or.inr fun lines hl lines' hl' => ?_
    cases (Leaf.source?_of_mem_tokens ha).symm.trans hl
    cases (Leaf.source?_of_mem_tokens hb).symm.trans hl'
    exact Or.inl hle

theorem mem_commonMark {t : Text} {tokens : List BlockToken} (h : commonMark t = some tokens)
    {leaf : Leaf} (hleaf : leaf ∈ leaves t) {token : BlockToken} (htoken : token ∈ leaf.tokens) :
    token ∈ tokens := by
  cases h
  exact List.mem_flatMap.2 ⟨leaf, hleaf, htoken⟩

/-! ## Line breaks -/

theorem ofRaw_withLineFeeds (n : Nat) (raw : Text) :
    Line.ofRaw n raw.withLineFeeds = Line.ofRaw n raw := by
  rw [Line.ofRaw, Text.withoutBreak_withLineFeeds, Text.isBroken_withLineFeeds]
  rfl

theorem readLines_map_withLineFeeds (n : Nat) (raws : List Text) :
    readLines n (raws.map Text.withLineFeeds) = readLines n raws := by
  induction raws generalizing n with
  | nil => rfl
  | cons raw raws ih => rw [List.map_cons, readLines, ofRaw_withLineFeeds, ih, readLines]

/-- **Block rules see the same lines**, whatever ends them. -/
theorem markdownLines_withLineFeeds (t : Text) :
    markdownLines t.withLineFeeds = markdownLines t := by
  rw [markdownLines_eq, Text.lines_withLineFeeds, readLines_map_withLineFeeds, markdownLines_eq]

theorem ignoresBreaks_commonMark : commonMark.IgnoresBreaks := by
  intro t
  rw [commonMark, leaves, markdownLines_withLineFeeds]
  rfl

/-! ## What stands in front -/

section
variable {quote list : Reader} {n : Nat} {rest : List Line} {leaf : Leaf}

/-- A line of plain text that starts with no blank is its own content. -/
theorem ofRaw_of_isPlain {t : Text} (h : ∀ c ∈ t, isPlain c = true)
    (hhead : ∀ c ∈ t.head?, isIndent c = false) (n : Nat) :
    Line.ofRaw n (t ++ ['\n']) = ⟨n, t, 0, 0, false, (t ++ ['\n']).isBroken⟩ := by
  rw [ofRaw_append (fun c hc => isLineBreak_of_isPlain (h c hc))
    (fun hnul => absurd (h _ hnul) (by decide)) rfl, skipIndent_of_head hhead]

/-- Plain text that starts like a heading or a paragraph is one. -/
theorem isText_of_isPlain {c : Char} {t : Text} (h : ∀ d ∈ c :: t, isPlain d = true)
    (hopens : opensText c = true) (hindent : isIndent c = false) (hfence : c ≠ '~' ∧ c ≠ backtick)
    (n : Nat) : (Line.ofRaw n (c :: t ++ ['\n'])).IsText .outermost := by
  have hbar : '|' ∉ c :: t := fun hbar => absurd (h _ hbar) (by decide)
  rw [ofRaw_of_isPlain h (by rintro _ ⟨⟩; exact hindent)]
  refine ⟨rfl, rfl, by simpa using hbar, ?_, by simpa using hopens⟩
  simp [Fence.opening?, Line.isCode, Frame.outermost, Fence.ofContent?, hfence]

theorem isDigit_of_isAlpha {c : Char} (h : c.isAlpha = true) : c.isDigit = false := by
  delta Char.isAlpha Char.isUpper Char.isLower at h
  delta Char.isDigit
  grind

/-- No block but a paragraph or a table starts with a letter. -/
theorem opensText_of_isAlpha {c : Char} (h : c.isAlpha = true) :
    opensText c = true ∧ isIndent c = false ∧ isPlain c = true ∧ (c ≠ '~' ∧ c ≠ backtick) ∧
      c ≠ '#' := by
  have hne {d : Char} (hd : d.isAlpha = false) : c ≠ d := by
    rintro rfl
    exact absurd (h.symm.trans hd) (by decide)
  simp [opensText, isIndent, isPlain, isLineBreak, hne, backtick, isDigit_of_isAlpha h]

/-- A heading ends with its line. -/
theorem mem_leaves_behind_heading {level : Nat} {text : Text} (hlevel : 1 ≤ level ∧ level ≤ 6)
    (htext : ∀ c ∈ text, isPlain c = true) (n : Nat)
    (hleaf : leaf ∈ (blocksFrom quote list .outermost 0 rest).leaves) :
    leaf ∈ (blocksFrom quote list .outermost 0
      (Line.ofRaw n (List.replicate level '#' ++ ' ' :: (text ++ ['\n'])) :: rest)).leaves := by
  obtain ⟨k, rfl⟩ := Nat.exists_eq_add_of_le' hlevel.1
  have hplain : ∀ d ∈ '#' :: (List.replicate k '#' ++ ' ' :: text), isPlain d = true := by
    intro d hd
    simp only [List.mem_cons, List.mem_append, List.mem_replicate] at hd
    rcases hd with rfl | ⟨-, rfl⟩ | rfl | hd
    case inr.inr.inr => exact htext d hd
    all_goals decide
  have hline := isText_of_isPlain hplain rfl rfl (by decide) n
  have hmarked : isHeading .outermost
      (Line.ofRaw n ('#' :: (List.replicate k '#' ++ ' ' :: text) ++ ['\n'])) = true := by
    have hrun : Text.run '#' (List.replicate (k + 1) '#' ++ ' ' :: text) = k + 1 :=
      Text.run_replicate_append (by simp) _
    rw [List.replicate_succ, List.cons_append] at hrun
    rw [ofRaw_of_isPlain hplain (by rintro _ ⟨⟩; rfl)]
    simp [isHeading, hrun, Line.isCode, Frame.outermost, endsMarker, isIndent, hlevel.2]
  rw [List.replicate_succ, List.cons_append]
  rw [List.cons_append, List.append_assoc, List.cons_append] at hline hmarked
  rw [blocksFrom_block hline.notBlank hline.inside (hline.block_of_isHeading hmarked)]
  exact List.mem_append_right _ hleaf

/-- A line of prose with a blank line behind it is a paragraph. -/
theorem mem_leaves_behind_prose {c : Char} {text : Text} (hc : c.isAlpha = true)
    (htext : ∀ d ∈ text, isPlain d = true) (n : Nat)
    (hleaf : leaf ∈ (blocksFrom quote list .outermost 0 rest).leaves) :
    leaf ∈ (blocksFrom quote list .outermost 0
      (Line.ofRaw n (c :: (text ++ ['\n'])) :: Line.ofRaw (n + 1) ['\n'] :: rest)).leaves := by
  obtain ⟨hopens, hindent, hc, hfence, hhash⟩ := opensText_of_isAlpha hc
  have hplain : ∀ d ∈ c :: text, isPlain d = true := List.forall_mem_cons.2 ⟨hc, htext⟩
  have hline := isText_of_isPlain hplain hopens hindent hfence n
  have hmarked : isHeading .outermost (Line.ofRaw n (c :: text ++ ['\n'])) = false := by
    rw [ofRaw_of_isPlain hplain (by rintro _ ⟨⟩; exact hindent)]
    simp [isHeading, Text.run, hhash]
  rw [List.cons_append] at hline hmarked
  rw [blocksFrom_block hline.notBlank hline.inside (hline.block_of_isBlank hmarked rfl)]
  refine List.mem_append_right _ ?_
  simp only [Block.prose]
  rwa [blocksFrom_blank rfl]

/-- **Behind lines that are blocks of their own**, the other lines are read as if they stood
    alone. -/
theorem mem_leaves_of_front {front : List Text} (h : PlainFront front)
    (hleaf : leaf ∈ (blocksFrom quote list .outermost 0 rest).leaves) (n : Nat) :
    leaf ∈ (blocksFrom quote list .outermost 0 (readLines n front ++ rest)).leaves := by
  induction h generalizing n with
  | nil => exact hleaf
  | blank _ ih =>
    rw [readLines, List.cons_append, blocksFrom_blank rfl]
    exact ih (n + 1)
  | heading hlevel htext _ ih =>
    rw [readLines, List.cons_append]
    exact mem_leaves_behind_heading hlevel htext n (ih (n + 1))
  | prose hc htext _ ih =>
    rw [readLines, readLines, List.cons_append, List.cons_append]
    exact mem_leaves_behind_prose hc htext n (ih (n + 2))

theorem leaves_eq (t : Text) :
    leaves t = (blocksFrom (blocks 19) (blocks 18) .outermost 0
      ((readLines 0 t.lines).filter Line.isReal)).leaves := by
  rw [leaves, markdownLines_eq]
  rfl

end

/-! ## Fenced code -/

section
variable {n : Nat}

/-- The line that a run of backticks makes. -/
theorem ofRaw_ticks (n k : Nat) :
    Line.ofRaw k (ticks n ++ ['\n']) = ⟨k, ticks n, 0, 0, false, (ticks n ++ ['\n']).isBroken⟩ := by
  refine ofRaw_of_isPlain (fun c hc => ?_) (fun c hc => ?_) k
  · rw [eq_backtick_of_mem_ticks hc]
    rfl
  · rw [eq_backtick_of_mem_ticks (List.mem_of_mem_head? hc)]
    rfl

/-- A run of three backticks or more opens a block. -/
theorem ofContent?_ticks (hn : 3 ≤ n) : Fence.ofContent? (ticks n) = some ⟨backtick, n⟩ := by
  have hrun : Text.run backtick (ticks n) = n := Text.run_replicate backtick n
  have hmark : backtick ≠ '~' := by decide
  obtain ⟨m, rfl⟩ := Nat.exists_eq_add_of_le' (Nat.zero_lt_of_lt hn)
  rw [ticks, List.replicate_succ] at hrun ⊢
  simp [Fence.ofContent?, hrun, hmark, Nat.not_lt.2 hn]

theorem skipIndent_spaces (shift column k : Nat) (t : Text) :
    skipIndent shift column (List.replicate k ' ' ++ t) = skipIndent shift (column + k) t := by
  induction k generalizing column with
  | zero => rfl
  | succ k ih =>
    rw [List.replicate_succ, List.cons_append, skipIndent, if_pos rfl, ih, Nat.add_right_comm,
      Nat.add_assoc]

theorem le_skipIndent (shift column : Nat) (t : Text) : column ≤ (skipIndent shift column t).1 := by
  induction t generalizing column with
  | nil => exact Nat.le_refl _
  | cons c t ih =>
    rw [skipIndent]
    split_ifs
    · exact Nat.le_of_succ_le (ih (column + 1))
    · exact (Nat.le_add_right ..).trans (ih _)
    · exact Nat.le_refl _

/-- What a line shows of a character. -/
def replaceNul (c : Char) : Char := if c = '\x00' then '\ufffd' else c

theorem isIndent_replaceNul (c : Char) : isIndent (replaceNul c) = isIndent c := by
  rw [replaceNul]
  split_ifs with h
  · subst h
    decide
  · rfl

theorem run_map_replaceNul (t : Text) :
    Text.run backtick (t.map replaceNul) = Text.run backtick t := by
  have htick : (· == backtick) ∘ replaceNul = (· == backtick) := by
    funext c
    rw [Function.comp_apply, replaceNul]
    split_ifs with h
    · subst h
      decide
    · rfl
  rw [Text.run, List.takeWhile_map, htick, List.length_map, Text.run]

/-- The line that a raw line makes, behind the spaces in front. -/
theorem ofRaw_of_spaces {raw marks : Text} {spaces : Nat}
    (h : raw.withoutBreak = List.replicate spaces ' ' ++ marks) (k : Nat) :
    Line.ofRaw k raw = ⟨k, (skipIndent 0 spaces (marks.map replaceNul)).2,
      (skipIndent 0 spaces (marks.map replaceNul)).1, 0, false, raw.isBroken⟩ := by
  have hbody : raw.withoutBreak.map replaceNul =
      List.replicate spaces ' ' ++ marks.map replaceNul := by
    rw [h, List.map_append, List.map_replicate]
    rfl
  change Line.mk k (skipIndent 0 0 (raw.withoutBreak.map replaceNul)).2
    (skipIndent 0 0 (raw.withoutBreak.map replaceNul)).1 0 false raw.isBroken = _
  rw [hbody, skipIndent_spaces, Nat.zero_add]

/-- **The lines that close a block of fenced code.** -/
theorem isClosedBy_ofRaw (hn : 0 < n) (k : Nat) (raw : Text) :
    Fence.isClosedBy ⟨backtick, n⟩ .outermost (Line.ofRaw k raw) = closesFence n raw := by
  have hhead := Text.head?_drop_run ' ' raw.withoutBreak
  rw [ofRaw_of_spaces (Text.replicate_run_append ' ' raw.withoutBreak).symm, closesFence]
  generalize Text.run ' ' raw.withoutBreak = spaces at hhead ⊢
  generalize raw.withoutBreak.drop spaces = marks at hhead ⊢
  cases marks with
  | nil => simp [Fence.isClosedBy, skipIndent, Text.run, hn.ne']
  | cons c rest =>
    have hspace : c ≠ ' ' := fun hc => hhead (congrArg some hc)
    by_cases htab : c = '\t'
    · -- a tab takes the content to the fourth column or beyond
      subst htab
      have hfar := le_skipIndent 0 (spaces + (4 - (spaces + 0) % 4)) (rest.map replaceNul)
      have hcode : 4 ≤ (skipIndent 0 spaces (replaceNul '\t' :: rest.map replaceNul)).1 := by
        refine le_trans ?_ hfar
        omega
      have hrun : Text.run backtick ('\t' :: rest) = 0 := by simp [Text.run, backtick]
      simp [Fence.isClosedBy, Line.isCode, Frame.outermost, hcode, hrun, hn.ne']
    · have hindent : isIndent (replaceNul c) = false := by
        rw [isIndent_replaceNul]
        simp [isIndent, hspace, htab]
      have hskip : skipIndent 0 spaces ((c :: rest).map replaceNul) =
          (spaces, (c :: rest).map replaceNul) :=
        skipIndent_of_head (by rintro _ ⟨⟩; exact hindent)
      have hfour : (!decide (4 ≤ spaces)) = decide (spaces ≤ 3) := by
        rw [← decide_not]
        exact decide_eq_decide.2 (by omega)
      have hblank : isIndent ∘ replaceNul = isIndent := funext isIndent_replaceNul
      simp only [hskip, Fence.isClosedBy, Line.isCode, Frame.outermost, run_map_replaceNul,
        ← List.map_drop, List.all_map, hblank, Bool.not_false, Bool.true_and, Nat.zero_add, hfour]

/-- Block rules see all lines through one that is not blank. -/
theorem exists_filter_readLines {t : Text} {front body rest : List Text} {opening closing : Text}
    (h : t.lines = front ++ opening :: (body ++ closing :: rest))
    (hbroken : ∀ line ∈ front ++ opening :: body, line.isBroken = true)
    (hreal : ∀ k, (Line.ofRaw k closing).isReal = true) :
    ∃ k ls, (readLines 0 t.lines).filter Line.isReal = readLines 0 front ++
      Line.ofRaw front.length opening ::
        (readLines (front.length + 1) body ++ Line.ofRaw k closing :: ls) := by
  have hsplit : t.lines = (front ++ opening :: body) ++ closing :: rest := by
    rw [h, List.append_assoc, List.cons_append]
  rw [hsplit, readLines_append, List.filter_append, filter_isReal_readLines hbroken, readLines,
    List.filter_cons, if_pos (hreal _), readLines_append, readLines, Nat.zero_add,
    List.append_assoc, List.cons_append]
  exact ⟨_, _, rfl⟩

/-- The block that a line of backticks opens goes on through the line that closes it. -/
theorem fenced_mem_leaves {t : Text} {front body rest : List Text} {closing : Text}
    (hfront : PlainFront front) (hn : 3 ≤ n)
    (hlines : t.lines = front ++ (ticks n ++ ['\n']) :: (body ++ closing :: rest))
    (hbody : ∀ line ∈ body, closesFence n line = false) (hclosing : closesFence n closing = true) :
    .fenced front.length (front.length + body.length + 2) ∈ leaves t := by
  have hpos : 0 < n := Nat.zero_lt_of_lt hn
  have hbroken : ∀ line ∈ front ++ (ticks n ++ ['\n']) :: body, line.isBroken = true :=
    Text.isBroken_of_lines
      (hlines.trans (List.append_assoc front ((ticks n ++ ['\n']) :: body) (closing :: rest)).symm)
  have hcloses (k : Nat) :
      Fence.isClosedBy ⟨backtick, n⟩ .outermost (Line.ofRaw k closing) = true :=
    (isClosedBy_ofRaw hpos k closing).trans hclosing
  obtain ⟨k, ls, hread⟩ := exists_filter_readLines hlines hbroken fun k => by
    rw [Line.isReal, isBlank_of_isClosedBy hpos (hcloses k)]
    exact Bool.or_true _
  have hextent : Fence.extent ⟨backtick, n⟩ .outermost
      (readLines (front.length + 1) body ++ Line.ofRaw k closing :: ls) = body.length + 1 := by
    rw [Fence.extent_append hpos ?_ (isOutside_ofRaw ..) (hcloses k), length_readLines]
    intro l hl
    obtain ⟨raw, hraw, m, rfl⟩ := exists_of_mem_readLines hl
    exact ⟨hbroken raw (by simp [hraw]), isOutside_ofRaw ..,
      (isClosedBy_ofRaw hpos m raw).trans (hbody raw hraw)⟩
  have hopens : Fence.opening? .outermost (Line.ofRaw front.length (ticks n ++ ['\n'])) =
      some ⟨backtick, n⟩ := by
    rw [ofRaw_ticks]
    exact ofContent?_ticks hn
  have hblank : (Line.ofRaw front.length (ticks n ++ ['\n'])).isBlank = false := by
    rw [ofRaw_ticks]
    exact List.isEmpty_eq_false_iff.2 (ticks_ne_nil hpos)
  have hbar : (Line.ofRaw front.length (ticks n ++ ['\n'])).content.contains '|' = false := by
    rw [ofRaw_ticks]
    simp [ticks, backtick]
  have hcode : (Line.ofRaw front.length (ticks n ++ ['\n'])).isCode .outermost = false := by
    rw [ofRaw_ticks]
    rfl
  rw [leaves_eq, hread]
  refine mem_leaves_of_front hfront ?_ 0
  rw [blocksFrom_block hblank (isOutside_ofRaw ..) (block_of_opening? hcode hbar hopens), hextent]
  have hlast : front.length + body.length + 2 = front.length + 1 + (body.length + 1) := by omega
  rw [hlast]
  exact List.mem_append_left _ (List.mem_singleton_self _)

theorem readsFences_commonMark : commonMark.ReadsFences :=
  fun _ _ _ _ _ _ _ hparse hfront hn hlines hbody hclosing =>
    mem_commonMark hparse (fenced_mem_leaves hfront hn hlines hbody hclosing)
      (List.mem_singleton_self _)

end

/-! ## Lists -/

section
variable {body : Text} {bodies : List Text}

theorem isBroken_itemLine (body : Text) : (itemLine body).isBroken = true := by
  simp [itemLine, Text.isBroken, isLineBreak]

theorem ofRaw_itemLine (h : IsItemBody body) (n : Nat) :
    Line.ofRaw n (itemLine body) = codeItem n body := by
  have hplain : ∀ c ∈ ' ' :: '*' :: ' ' :: backtick :: body, isPlain c = true := by
    intro c hc
    simp only [List.mem_cons] at hc
    rcases hc with rfl | rfl | rfl | rfl | hc
    case inr.inr.inr.inr => exact h.plain c hc
    all_goals decide
  have hline := ofRaw_append (u := ['\n']) (fun c hc => isLineBreak_of_isPlain (hplain c hc))
    (fun hnul => absurd (hplain _ hnul) (by decide)) rfl n
  have hbroken := isBroken_itemLine body
  simp only [itemLine, ← List.cons_append] at hbroken ⊢
  rw [hline, hbroken]
  rfl

theorem readLines_itemLines (h : ∀ body ∈ bodies, IsItemBody body) (n : Nat) :
    readLines n (bodies.map itemLine) = codeItems n bodies := by
  induction bodies generalizing n with
  | nil => rfl
  | cons body bodies ih =>
    obtain ⟨hbody, hbodies⟩ := List.forall_mem_cons.1 h
    rw [List.map_cons, readLines, codeItems, ofRaw_itemLine hbody, ih hbodies]

theorem readsItems_commonMark : commonMark.ReadsItems := by
  intro t tokens front bodies hparse hfront hbodies hlines k hk
  have hbroken : ∀ line ∈ t.lines, line.isBroken = true := by
    obtain ⟨body, rest, rfl⟩ :=
      List.exists_cons_of_ne_nil (List.ne_nil_of_length_pos (Nat.zero_lt_of_lt hk))
    rw [List.map_cons] at hlines
    intro line hline
    rw [hlines, List.mem_append, ← List.map_cons] at hline
    rcases hline with hline | hline
    · exact Text.isBroken_of_lines hlines line hline
    · obtain ⟨body', -, rfl⟩ := List.mem_map.1 hline
      exact isBroken_itemLine body'
  have hleaf : .prose (front.length + k) (front.length + k + 1) ∈ leaves t := by
    rw [leaves_eq, filter_isReal_readLines hbroken, hlines, readLines_append, Nat.zero_add,
      readLines_itemLines hbodies]
    exact mem_leaves_of_front hfront (prose_mem_blocksFrom hbodies k hk) 0
  exact mem_commonMark hparse hleaf (List.mem_singleton_self _)

end

end MentionCommands
