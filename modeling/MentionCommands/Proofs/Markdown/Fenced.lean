/-
  Fenced code, and the blocks that stand before it.

  * `readLines n raws`: the lines that raw lines make, numbered from `n` on;
  * `Fence.extent_append`: a fenced block goes on through the first line that closes it;
  * `Line.IsText`: a line that starts a heading or a paragraph (`Line.IsText.block_eq`).
-/
import MentionCommands.Proofs.Markdown.Leaves

namespace MentionCommands

/-! ## Lines read one after another -/

/-- The lines that raw lines make, with the numbers from `n` on. -/
def readLines (n : Nat) : List Text → List Line
  | [] => []
  | raw :: raws => Line.ofRaw n raw :: readLines (n + 1) raws

theorem mapIdx_ofRaw (n : Nat) (raws : List Text) :
    (raws.mapIdx fun i raw => Line.ofRaw (n + i) raw) = readLines n raws := by
  induction raws generalizing n with
  | nil => rfl
  | cons raw raws ih =>
    rw [List.mapIdx_cons, readLines, ← ih]
    simp only [Nat.add_zero, Nat.add_assoc, Nat.add_comm 1]

theorem markdownLines_eq (t : Text) :
    markdownLines t = (readLines 0 t.lines).filter Line.isReal := by
  rw [markdownLines, ← mapIdx_ofRaw]
  simp only [Nat.zero_add]

theorem readLines_append (n : Nat) (raws raws' : List Text) :
    readLines n (raws ++ raws') = readLines n raws ++ readLines (n + raws.length) raws' := by
  induction raws generalizing n with
  | nil => rfl
  | cons raw raws ih =>
    rw [List.cons_append, readLines, ih, readLines, List.length_cons, List.cons_append,
      Nat.add_right_comm, Nat.add_assoc]

theorem length_readLines (n : Nat) (raws : List Text) :
    (readLines n raws).length = raws.length := by
  induction raws generalizing n with
  | nil => rfl
  | cons raw raws ih => rw [readLines, List.length_cons, ih, List.length_cons]

theorem exists_of_mem_readLines {n : Nat} {raws : List Text} {l : Line}
    (h : l ∈ readLines n raws) : ∃ raw ∈ raws, ∃ m, l = Line.ofRaw m raw := by
  induction raws generalizing n with
  | nil => cases h
  | cons raw raws ih =>
    rcases List.mem_cons.1 h with rfl | h
    · exact ⟨raw, List.mem_cons_self, n, rfl⟩
    · obtain ⟨raw', hraw, hm⟩ := ih h
      exact ⟨raw', List.mem_cons_of_mem _ hraw, hm⟩

theorem filter_isReal_readLines {raws : List Text} (h : ∀ raw ∈ raws, raw.isBroken = true)
    (n : Nat) : (readLines n raws).filter Line.isReal = readLines n raws := by
  rw [List.filter_eq_self]
  intro l hl
  obtain ⟨raw, hraw, m, rfl⟩ := exists_of_mem_readLines hl
  exact isReal_ofRaw (h raw hraw) m

/-- The line that a body makes whose characters stand for themselves, with or without a break. -/
theorem ofRaw_append {body u : Text} (hbreak : ∀ c ∈ body, isLineBreak c = false)
    (hnul : '\x00' ∉ body) (hu : u.head?.all isLineBreak = true) (n : Nat) :
    Line.ofRaw n (body ++ u) =
      ⟨n, (skipIndent 0 0 body).2, (skipIndent 0 0 body).1, 0, false, (body ++ u).isBroken⟩ := by
  have hmap : (body.map fun c => if c = '\x00' then '\ufffd' else c) = body := by
    conv_rhs => rw [← body.map_id]
    refine List.map_congr_left fun c hc => if_neg ?_
    rintro rfl
    exact hnul hc
  rw [Line.ofRaw, Text.withoutBreak_append hbreak hu, hmap]

theorem isOutside_ofRaw (n : Nat) (raw : Text) :
    (Line.ofRaw n raw).isOutside .outermost = false := by
  simp [Line.isOutside, Frame.outermost, Line.ofRaw]

theorem skipIndent_of_head {shift column : Nat} {t : Text}
    (h : ∀ c ∈ t.head?, isIndent c = false) : skipIndent shift column t = (column, t) := by
  cases t with
  | nil => rfl
  | cons c t =>
    have hc := h c rfl
    simp only [isIndent, Bool.or_eq_false_iff, beq_eq_false_iff_ne] at hc
    rw [skipIndent, if_neg hc.1, if_neg hc.2]

/-! ## How far a fence reaches -/

section

variable {fence : Fence} {f : Frame} {l : Line} {ls rest : List Line}

theorem isBlank_of_isClosedBy (hpos : 0 < fence.length) (h : fence.isClosedBy f l = true) :
    l.isBlank = false := by
  unfold Fence.isClosedBy at h
  cases hc : l.content with
  | nil => simp [hc, Text.run, hpos.ne'] at h
  | cons => simp [Line.isBlank, hc]

/-- **A fenced block goes on through the first line that closes it.** -/
theorem Fence.extent_append (hpos : 0 < fence.length)
    (hopen : ∀ l ∈ ls, l.isBroken = true ∧ l.isOutside f = false ∧ fence.isClosedBy f l = false)
    (hout : l.isOutside f = false) (hclose : fence.isClosedBy f l = true) :
    fence.extent f (ls ++ l :: rest) = ls.length + 1 := by
  induction ls with
  | nil =>
    rw [List.nil_append, extent, isBlank_of_isClosedBy hpos hclose]
    simp [hout, hclose]
  | cons l' ls ih =>
    rw [List.forall_mem_cons] at hopen
    obtain ⟨⟨hbroken, hout', hstays⟩, hopen⟩ := hopen
    rw [List.cons_append, extent, ih hopen]
    simp [hbroken, hout', hstays, Nat.add_comm]

end

/-! ## Text outside containers -/

/-- Whether no block but fenced code, a heading, a table or a paragraph starts with a character. -/
def opensText (c : Char) : Bool :=
  !c.isDigit && c != '>' && c != '*' && c != '-' && c != '_' && c != '+' && c != '[' && c != '<'

/-- A line that is a heading, if it is not plain text. -/
structure Line.IsText (f : Frame) (l : Line) : Prop where
  inside : l.isOutside f = false
  notCode : l.isCode f = false
  noBar : l.content.contains '|' = false
  noFence : Fence.opening? f l = none
  head : l.content.head?.any opensText = true

section

variable {quote list : Reader} {f : Frame} {l : Line} {rest : List Line}

theorem table?_eq_none (h : l.content.contains '|' = false) (ends : Line → Bool) :
    table? f ends l rest = none := by
  rw [table?, if_neg]
  cases rest with
  | nil => simp [opensTable]
  | cons dashes rest =>
    rw [opensTable, h]
    simp

namespace Line.IsText

theorem exists_content (h : l.IsText f) : ∃ c t, l.content = c :: t ∧
    c.isDigit = false ∧ c ≠ '>' ∧ c ≠ '*' ∧ c ≠ '-' ∧ c ≠ '_' ∧ c ≠ '+' ∧ c ≠ '[' ∧ c ≠ '<' := by
  have hhead := h.head
  cases hc : l.content with
  | nil => simp [hc] at hhead
  | cons c t => exact ⟨c, t, rfl, by simpa [hc, opensText, and_assoc] using hhead⟩

theorem notBlank (h : l.IsText f) : l.isBlank = false := by
  obtain ⟨c, t, hc, -⟩ := h.exists_content
  rw [Line.isBlank, hc]
  rfl

theorem opensQuote_eq_false (h : l.IsText f) : opensQuote f l = false := by
  obtain ⟨c, t, hc, hopens⟩ := h.exists_content
  simp [opensQuote, isQuoted, hc, hopens]

theorem isBreak_eq_false (h : l.IsText f) : isBreak f l = false := by
  obtain ⟨c, t, hc, hopens⟩ := h.exists_content
  simp [isBreak, hc, hopens]

theorem ofContent?_eq_none (h : l.IsText f) : ItemMark.ofContent? l.content = none := by
  obtain ⟨c, t, hc, hopens⟩ := h.exists_content
  simp [ItemMark.ofContent?, ItemMark.numbered?, ItemMark.bullet?, hc, hopens]

theorem definition?_eq_none (h : l.IsText f) (ls : List Line) : definition? f l ls = none := by
  obtain ⟨c, t, hc, hopens⟩ := h.exists_content
  have hwhole : ∃ t', Definition.textOf (l :: ls) = c :: t' := by
    rw [Definition.textOf, List.flatMap_cons, hc]
    split <;> exact ⟨_, rfl⟩
  obtain ⟨t', hwhole⟩ := hwhole
  rw [definition?, hwhole, Definition.after?]
  simp [hopens]

theorem htmlOpening?_eq_none (h : l.IsText f) : htmlOpening? f l = none := by
  obtain ⟨c, t, hc, hopens⟩ := h.exists_content
  simp [htmlOpening?, HtmlKind.ofContent?, hc, hopens]

theorem list?_eq_none (h : l.IsText f) : list? list f l rest = none := by
  have hmark : itemMark? f none l = none := by
    rw [itemMark?, h.ofContent?_eq_none]
    split <;> rfl
  rw [list?, items, hmark]
  rfl

/-- **Text is a heading or belongs to a paragraph.** -/
theorem block_eq (h : l.IsText f) :
    block quote list f l rest =
      (heading? f l <|> underlinedHeading? f l rest).getD (paragraph f l rest) := by
  have hindented : indentedCode? f l rest = none := by rw [indentedCode?, h.notCode]; rfl
  have hfenced : fencedCode? f l rest = none := by rw [fencedCode?, h.noFence]; rfl
  have hquote : quote? quote f l rest = none := by rw [quote?, h.opensQuote_eq_false]; rfl
  have hbreak : thematicBreak? f l = none := by rw [thematicBreak?, h.isBreak_eq_false]; rfl
  have hhtml : htmlBlock? f l rest = none := by rw [htmlBlock?, h.htmlOpening?_eq_none]; rfl
  rw [block, table?_eq_none h.noBar, hindented, hfenced, hquote, hbreak, h.list?_eq_none,
    h.definition?_eq_none, hhtml]
  rfl

/-- A heading is a block of one line. -/
theorem block_of_isHeading (h : l.IsText f) (hh : isHeading f l = true) :
    block quote list f l rest = .prose l 0 := by
  rw [h.block_eq, heading?, if_pos hh]
  rfl

/-- So is text that nothing underlines and nothing continues. -/
theorem block_of_alone (h : l.IsText f) (hh : isHeading f l = false)
    (hunder : underline? f rest = none) (hrest : continuation true f rest = []) :
    block quote list f l rest = .prose l 0 := by
  rw [h.block_eq, heading?, hh, underlinedHeading?, hunder, paragraph, hrest]
  rfl

/-- So is text before a blank line. -/
theorem block_of_isBlank (h : l.IsText f) (hh : isHeading f l = false) {blank : Line}
    (hb : blank.isBlank = true) : block quote list f l (blank :: rest) = .prose l 0 :=
  h.block_of_alone hh (by rw [underline?, if_pos hb]) (by rw [continuation, if_pos hb])

end Line.IsText

theorem block_of_opening? (hcode : l.isCode f = false) (hbar : l.content.contains '|' = false)
    {fence : Fence} (h : Fence.opening? f l = some fence) :
    block quote list f l rest = .fenced l (fence.extent f rest) := by
  have hindented : indentedCode? f l rest = none := by rw [indentedCode?, hcode]; rfl
  rw [block, table?_eq_none hbar, hindented, fencedCode?, h]
  rfl

theorem block_of_list? (hcode : l.isCode f = false) (hbar : l.content.contains '|' = false)
    (hplain : interruptsList f l = false) {b : Block} (h : list? list f l rest = some b) :
    block quote list f l rest = b := by
  simp only [interruptsList, Bool.or_eq_false_iff, Option.isSome_eq_false_iff,
    Option.isNone_iff_eq_none] at hplain
  obtain ⟨⟨hfence, hquote⟩, hbreak⟩ := hplain
  have hindented : indentedCode? f l rest = none := by rw [indentedCode?, hcode]; rfl
  have hfenced : fencedCode? f l rest = none := by rw [fencedCode?, hfence]; rfl
  have hquoted : quote? quote f l rest = none := by rw [quote?, hquote]; rfl
  have hbroken : thematicBreak? f l = none := by rw [thematicBreak?, hbreak]; rfl
  rw [block, table?_eq_none hbar, hindented, hfenced, hquoted, hbroken, h]
  rfl

theorem blocksFrom_blank (h : l.isBlank = true) :
    blocksFrom quote list f 0 (l :: rest) = (blocksFrom quote list f 0 rest).afterLine := by
  rw [blocksFrom, if_pos h]

theorem blocksFrom_block (hb : l.isBlank = false) (ho : l.isOutside f = false) {b : Block}
    (h : block quote list f l rest = b) :
    blocksFrom quote list f 0 (l :: rest) =
      (blocksFrom quote list f b.extra rest).afterLeaves b.leaves := by
  rw [blocksFrom, if_neg (by simp [hb]), if_neg (by simp [ho]), h]

end

end MentionCommands
