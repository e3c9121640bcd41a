/-
  The lines that a range of a text holds.

  Ranges of lines are looked up in the text as it is, by the places behind its breaks, while block
  rules number the lines that line feeds make.  Both counts agree for any mixture of breaks.

  * `Text.feedLines`: a text cut behind its line feeds; `feedLines_eq`: these are its lines, and one
    more where nothing follows the last break;
  * `length_feedLines_withLineFeeds`: a text has as many lines, by its breaks, as the text with line
    feeds;
  * `Text.PartsPair`: an offset between a carriage return and its line feed; no line starts there
    (`not_partsPair_lineOffset`);
  * `HoldsLines`: a range holds some lines of a text; `lineRange_exact`: the range that is looked up
    for lines holds them, and the range of the next lines starts where it stops.
-/
import MentionCommands.Proofs.Indexed.Code
import MentionCommands.Proofs.Text.Breaks

namespace MentionCommands

namespace Text

variable {c : Char} {t rest : Text}

/-! ## Lines between line feeds -/

/-- A text cut behind each line feed; what follows the last one, if only nothing, is a line too. -/
def feedLines : Text → List Text
  | [] => [[]]
  | c :: rest =>
    if c = '\n' then [c] :: feedLines rest else (feedLines rest).modifyHead (c :: ·)

theorem length_feedLines (t : Text) : t.feedLines.length = t.count '\n' + 1 := by
  induction t with
  | nil => rfl
  | cons c t ih =>
    by_cases hc : c = '\n'
    · subst hc
      rw [feedLines, if_pos rfl, List.length_cons, ih, List.count_cons_self]
    · rw [feedLines, if_neg hc, List.length_modifyHead, ih, List.count_cons_of_ne hc]

/-- **Cut behind its line feeds, a text without carriage returns falls into its lines**; where
    nothing follows the last break, one more of them is empty. -/
theorem feedLines_eq (h : '\r' ∉ t) :
    t.feedLines = t.lines ∨ t.feedLines = t.lines ++ [[]] := by
  induction t with
  | nil => exact Or.inr rfl
  | cons c t ih =>
    obtain ⟨hr, ht⟩ := List.ne_and_not_mem_of_not_mem_cons h
    by_cases hn : c = '\n'
    · subst hn
      rw [feedLines, if_pos rfl, lines_break]
      exact (ih ht).imp (congrArg _) (congrArg _)
    · rw [feedLines, if_neg hn]
      cases hlines : lines t with
      | nil =>
        rw [lines_eq_nil_iff.1 hlines, lines_single hn hr.symm]
        exact Or.inl rfl
      | cons first others =>
        rw [hlines] at ih
        rw [lines_cons hn hr.symm hlines]
        rcases ih ht with h | h
        · exact Or.inl (by rw [h]; rfl)
        · exact Or.inr (by rw [h]; rfl)

/-- Some of these lines hold what the lines of their numbers do. -/
theorem flatten_take_drop_feedLines (h : '\r' ∉ t) (n k : Nat) :
    ((t.feedLines.drop n).take k).flatten = ((t.lines.drop n).take k).flatten := by
  have hempty (n k : Nat) : ((([[]] : List Text).drop n).take k).flatten = [] :=
    List.flatten_eq_nil_iff.2 fun _ hline =>
      List.mem_singleton.1 (List.mem_of_mem_drop (List.mem_of_mem_take hline))
  rcases feedLines_eq h with heq | heq
  · rw [heq]
  · rw [heq, List.drop_append, List.take_append, List.flatten_append, hempty, List.append_nil]

theorem return_not_mem_withLineFeeds (t : Text) : '\r' ∉ t.withLineFeeds := by
  have hfeed : '\r' ≠ '\n' := by decide
  induction t using units_induction with
  | nil => exact List.not_mem_nil
  | pair rest ih =>
    rw [withLineFeeds_pair]
    exact List.not_mem_cons_of_ne_of_not_mem hfeed ih
  | ret rest h ih =>
    rw [withLineFeeds_return h]
    exact List.not_mem_cons_of_ne_of_not_mem hfeed ih
  | cons c rest h ih =>
    rw [withLineFeeds_cons h]
    exact List.not_mem_cons_of_ne_of_not_mem h.symm ih

/-! ## Pairs -/

/-- An offset lies between a carriage return and the line feed behind it. -/
def PartsPair (t : Text) (offset : Nat) : Prop :=
  (t.take offset).getLast? = some '\r' ∧ (t.drop offset).head? = some '\n'

instance (t : Text) (offset : Nat) : Decidable (PartsPair t offset) :=
  inferInstanceAs (Decidable (_ ∧ _))

theorem not_partsPair_zero (t : Text) : ¬ t.PartsPair 0 := fun h => nomatch h.1

/-- Behind one more character the pairs are the same, but for a pair that it starts itself. -/
theorem partsPair_cons {offset : Nat} (h : PartsPair (c :: rest) (offset + 1)) :
    offset = 0 ∧ c = '\r' ∧ rest.head? = some '\n' ∨ rest.PartsPair offset := by
  obtain ⟨hr, hn⟩ := h
  cases offset with
  | zero => exact Or.inl ⟨rfl, Option.some.inj hr, hn⟩
  | succ offset =>
    cases rest with
    | nil => cases hn
    | cons d rest => exact Or.inr ⟨hr, hn⟩

theorem unitOffset_succ {u : Text} (h : t.units = u :: rest.units) (n : Nat) :
    t.unitOffset (n + 1) = rest.unitOffset n + u.length := by
  rw [unitOffset, h, List.take_succ_cons, List.flatten_cons, List.length_append, Nat.add_comm,
    unitOffset]

/-- **No unit starts between the characters of a pair.** -/
theorem not_partsPair_unitOffset (t : Text) (n : Nat) : ¬ t.PartsPair (t.unitOffset n) := by
  induction t using units_induction generalizing n with
  | nil =>
    rw [unitOffset, units, List.take_nil]
    exact not_partsPair_zero []
  | pair rest ih =>
    cases n with
    | zero => exact not_partsPair_zero _
    | succ n =>
      rw [unitOffset_succ (units_pair rest)]
      intro h
      -- the offset is behind both characters, so only the rest could bring the pair that it parts
      rcases partsPair_cons h with ⟨hzero, -⟩ | h
      · exact Nat.succ_ne_zero _ hzero
      · rcases partsPair_cons h with ⟨-, hreturn, -⟩ | h
        · exact absurd hreturn (by decide)
        · exact ih n h
  | ret rest hrest ih =>
    cases n with
    | zero => exact not_partsPair_zero _
    | succ n =>
      rw [unitOffset_succ (units_return hrest)]
      intro h
      rcases partsPair_cons h with ⟨-, -, hhead⟩ | h
      · exact hrest hhead
      · exact ih n h
  | cons c rest hc ih =>
    cases n with
    | zero => exact not_partsPair_zero _
    | succ n =>
      rw [unitOffset_succ (units_cons hc rest)]
      intro h
      rcases partsPair_cons h with ⟨-, hreturn, -⟩ | h
      · exact hc hreturn
      · exact ih n h

/-- The next line starts behind the pair that ends a line, and not within it. -/
example : ¬ PartsPair "a\r\nb".toList 3 ∧ PartsPair "a\r\nb".toList 2 := by decide

theorem not_partsPair_lineOffset (t : Text) (n : Nat) : ¬ t.PartsPair (t.lineOffset n) := by
  rw [← unitOffset_lineOffset]
  exact not_partsPair_unitOffset t _

end Text

/-! ## Counts of lines -/

theorem breaks_eq_count (t : Text) : t.breaks = t.withLineFeeds.count '\n' := by
  induction t using Text.units_induction with
  | nil => rfl
  | pair rest ih =>
    rw [Text.breaks_of_lines (Text.lines_return_break rest) (by decide),
      Text.withLineFeeds_pair, ih, List.count_cons_self]
  | ret rest h ih =>
    rw [Text.breaks_of_lines (Text.lines_return_of_head h) (by decide), Text.withLineFeeds_return h,
      ih, List.count_cons_self]
  | cons c rest h ih =>
    rw [Text.withLineFeeds_cons h]
    by_cases hn : c = '\n'
    · subst hn
      rw [Text.breaks_of_lines (Text.lines_break rest) (by decide), ih, List.count_cons_self]
    · rw [Text.breaks_cons hn h, ih, List.count_cons_of_ne hn]

/-- **Both counts of lines agree.** -/
theorem length_feedLines_withLineFeeds (t : Text) :
    t.withLineFeeds.feedLines.length = t.breaks + 1 := by
  rw [Text.length_feedLines, breaks_eq_count]

/-! ## Ranges of lines -/

/-- A range of a text holds its lines from `first` up to `last`: with line feeds for its breaks it
    is these lines of the text with line feeds, together and one by one, and no end of it parts a
    pair. -/
structure HoldsLines (t : Text) (first last : Nat) (range : Span) : Prop where
  within : range.start ≤ range.stop ∧ range.stop ≤ t.length
  joined : (range.of t).withLineFeeds =
    ((t.withLineFeeds.feedLines.drop first).take (last - first)).flatten
  apart : (range.of t).withLineFeeds.lines =
    (t.withLineFeeds.lines.drop first).take (last - first)
  whole : ¬ t.PartsPair range.start ∧ ¬ t.PartsPair range.stop

/-- A range that starts at a line of the text is not cut short. -/
theorem lineRange_of_le {t : Text} {first : Nat} (h : first ≤ t.breaks) (last : Nat) :
    lineRange t first last = ⟨t.lineOffset first, t.lineOffset last⟩ := by
  rw [lineRange, Nat.min_eq_left h]

/-- What a range of lines holds has these lines of the text with line feeds. -/
theorem lines_lineRange {t : Text} {first : Nat} (h : first ≤ t.breaks) (last : Nat) :
    ((lineRange t first last).of t).withLineFeeds.lines =
      (t.withLineFeeds.lines.drop first).take (last - first) := by
  rw [Text.lines_withLineFeeds, lineRange_of_le h, Span.of, Text.lines_slice,
    Text.lines_withLineFeeds, List.map_take, List.map_drop]

theorem holdsLines_lineRange {t : Text} {first last : Nat} (h : first ≤ last)
    (hfirst : first ≤ t.breaks) : HoldsLines t first last (lineRange t first last) where
  within := by
    rw [lineRange_of_le hfirst]
    exact ⟨t.monotone_lineOffset h, t.lineOffset_le_length last⟩
  joined := by
    rw [Text.flatten_take_drop_feedLines t.return_not_mem_withLineFeeds, ← lines_lineRange hfirst,
      Text.flatten_lines]
  apart := lines_lineRange hfirst last
  whole := ⟨t.not_partsPair_lineOffset _, t.not_partsPair_lineOffset last⟩

/-- **Line numbers lead to the right lines.**  For lines that the text with line feeds has, the
    look-up does not fail, and gives a range that holds these lines and no more; the range of the
    lines behind them starts where it stops. -/
theorem lineRange_exact (t : Text) {first last : Nat} (h : first < last)
    (hlast : last ≤ t.withLineFeeds.feedLines.length) :
    Indexed.lineRange? t first last = some (lineRange t first last) ∧
    HoldsLines t first last (lineRange t first last) ∧
    ∀ next, last < next → next ≤ t.withLineFeeds.feedLines.length →
      (Indexed.lineRange? t last next).map Span.start = some (lineRange t first last).stop := by
  rw [length_feedLines_withLineFeeds] at hlast ⊢
  refine ⟨Indexed.lineRange?_eq t first last, holdsLines_lineRange h.le (by omega), ?_⟩
  intro next hnext hle
  rw [Indexed.lineRange?_eq, Option.map_some, lineRange_of_le (show last ≤ t.breaks by omega)]
  rfl

/-- Two lines that are breaks alone, between a pair and a last line without a break. -/
theorem lineRange_exact_mixed :
    1 < 3 ∧ 3 ≤ (Text.withLineFeeds "a\r\n\n\rb".toList).feedLines.length ∧
    Indexed.lineRange? "a\r\n\n\rb".toList 1 3 = some ⟨3, 5⟩ ∧
    HoldsLines "a\r\n\n\rb".toList 1 3 ⟨3, 5⟩ ∧
    (Indexed.lineRange? "a\r\n\n\rb".toList 3 4).map Span.start = some 5 := by
  have hlast : 3 ≤ (Text.withLineFeeds "a\r\n\n\rb".toList).feedLines.length := by decide
  have hrange : lineRange "a\r\n\n\rb".toList 1 3 = ⟨3, 5⟩ := by decide +kernel
  have h := lineRange_exact "a\r\n\n\rb".toList (by decide : 1 < 3) hlast
  rw [hrange] at h
  obtain ⟨hfound, hholds, hnext⟩ := h
  exact ⟨by decide, hlast, hfound, hholds, hnext 4 (by decide) (by decide)⟩

/-- Behind a last break an empty line starts. -/
example : Indexed.lineRange? "a\r".toList 1 2 = some ⟨2, 2⟩ := by decide

end MentionCommands
