/-
  The spans of code in a text, in order.

  * `stacked_inlineCode`: the inline code of a text lies in it, one span behind the other;
  * `Span.mem_merge`, `Span.pairwise_merge`: merging keeps the spans and puts them in order, and
    `Span.merge_eq` says that nothing else does;
  * `LinesExist`: the tokens of a text name lines that it has.  Then its spans are parts of it that
    are not empty (`within_of_linesExist`);
  * `CodeIndex.Covers`: an offset lies in code; `CodeIndex.Contains`: a range lies in one span;
    `CodeIndex.Clear`: no span reaches into a range;
  * `overlapping?_eq_find?`: nothing is lost by looking only at the spans that start before the end
    of a range; `overlapping?_eq_none_iff`: none is found just if the range is clear, and
    `clear_iff`: it is clear just if no offset of it lies in code.
-/
import MentionCommands.Code.Index
import MentionCommands.Proofs.Text.Lines
import MentionCommands.Proofs.Text.Stacked

namespace MentionCommands

/-! ## Inline code -/

theorem length_pos_of_code_mem {skip : Nat} {t : Text} {length : Nat} {body : Text}
    (h : .code length body ∈ piecesFrom skip t) : 0 < length := by
  have run_pos (rest : Text) : 0 < Text.run backtick (backtick :: rest) := by simp [Text.run]
  fun_induction piecesFrom skip t with
  | case1 => cases h
  | case2 _ _ _ ih => exact ih h
  | case3 => cases List.mem_singleton.1 h
  | case4 d rest ih =>
    rcases List.mem_cons.1 h with h | h
    · cases h
    · exact ih h
  | case5 rest _ length' behind inner hinner ih =>
    rcases List.mem_cons.1 h with h | h
    · rw [Piece.code.injEq] at h
      rw [h.1]
      exact run_pos rest
    · exact ih h
  | case6 rest _ length' behind hnone ih =>
    rcases List.mem_cons.1 h with h | h
    · cases h
    · exact ih h
  | case7 c rest _ _ ih =>
    rcases List.mem_cons.1 h with h | h
    · cases h
    · exact ih h

/-- Spans of code, one behind the other. -/
abbrev StackedSpans (lo hi : Nat) (spans : List Span) : Prop :=
  Stacked Span.start Span.stop lo hi spans

theorem stacked_locate {ps : List Piece} (h : ∀ n body, .code n body ∈ ps → 0 < n) (offset : Nat) :
    StackedSpans offset (offset + (ps.flatMap Piece.source).length) (locate offset ps) := by
  induction ps generalizing offset with
  | nil => exact .nil
  | cons p ps ih =>
    have hrest := ih (fun n body hp => h n body (List.mem_cons_of_mem _ hp))
    cases p with
    | code n body =>
      have hn := h n body List.mem_cons_self
      have hlen : (Piece.code n body).source.length = 2 * n + body.length := by
        simp [Piece.source]
        omega
      have hspan : StackedSpans offset (offset + 2 * n + body.length)
          [⟨offset, offset + 2 * n + body.length⟩] :=
        .singleton (Nat.le_refl _) (by simp only; omega) (Nat.le_refl _)
      rw [List.flatMap_cons, List.length_append, hlen]
      exact hspan.append ((hrest _).mono (Nat.le_refl _) (by omega)) (by omega) (by omega)
    | plain c | escaped c | literal n =>
      rw [List.flatMap_cons, List.length_append, ← Nat.add_assoc]
      exact (hrest _).mono (Nat.le_add_right ..) (Nat.le_refl _)

/-- **The inline code of a text lies in it**, one span behind the other. -/
theorem stacked_inlineCode (offset : Nat) (t : Text) :
    StackedSpans offset (offset + t.length) (inlineCode offset t) := by
  have := stacked_locate (fun n body (h : _ ∈ pieces t) => length_pos_of_code_mem h) offset
  rwa [flatMap_source_pieces] at this

/-! ## Spans in order -/

namespace Span

variable {a b c s s' : Span} {spans : List Span}

theorem not_precedes_self (a : Span) : ¬ a.Precedes a := by
  rintro (hlt | ⟨-, hlt⟩)
  · exact Nat.lt_irrefl _ hlt
  · exact Nat.lt_irrefl _ hlt

theorem Precedes.trans (h : a.Precedes b) (h' : b.Precedes c) : a.Precedes c := by
  unfold Precedes at *
  omega

theorem Precedes.start_le (h : a.Precedes b) : a.start ≤ b.start := by
  rcases h with h | h
  · exact h.le
  · exact h.1.le

theorem precedes_of_not (h : ¬ a.Precedes b) (hne : a ≠ b) : b.Precedes a := by
  obtain ⟨start, stop⟩ := a
  obtain ⟨start', stop'⟩ := b
  simp only [Precedes, ne_eq, mk.injEq] at *
  omega

theorem mem_insert : s' ∈ insert s spans ↔ s' = s ∨ s' ∈ spans := by
  induction spans with
  | nil => exact List.mem_cons
  | cons s₁ spans ih =>
    rw [insert]
    split_ifs with hlt heq
    · exact List.mem_cons
    · subst heq
      simp
    · rw [List.mem_cons, ih, List.mem_cons]
      exact or_left_comm

/-- Merging keeps the spans. -/
theorem mem_merge : s ∈ merge spans ↔ s ∈ spans := by
  induction spans with
  | nil => rfl
  | cons s₁ spans ih => rw [merge, mem_insert, ih, List.mem_cons]

theorem pairwise_insert (h : spans.Pairwise Precedes) : (insert s spans).Pairwise Precedes := by
  induction spans with
  | nil => exact List.pairwise_singleton ..
  | cons s₁ spans ih =>
    obtain ⟨hs₁, hspans⟩ := List.pairwise_cons.1 h
    rw [insert]
    split_ifs with hlt heq
    · refine List.pairwise_cons.2 ⟨?_, h⟩
      rw [List.forall_mem_cons]
      exact ⟨hlt, fun s' hs' => hlt.trans (hs₁ s' hs')⟩
    · exact h
    · refine List.pairwise_cons.2 ⟨fun s' hs' => ?_, ih hspans⟩
      rcases mem_insert.1 hs' with rfl | hs'
      · exact precedes_of_not hlt heq
      · exact hs₁ s' hs'

/-- **Merging puts the spans in order**, each of them once. -/
theorem pairwise_merge (spans : List Span) : (merge spans).Pairwise Precedes := by
  induction spans with
  | nil => exact .nil
  | cons s spans ih => exact pairwise_insert ih

theorem nodup_of_pairwise (h : spans.Pairwise Precedes) : spans.Nodup := by
  refine h.imp ?_
  rintro a _ hlt rfl
  exact not_precedes_self a hlt

/-- Lists of the same spans in order are the same. -/
theorem eq_of_mem_iff {spans' : List Span} (h : spans.Pairwise Precedes)
    (h' : spans'.Pairwise Precedes) (hmem : ∀ s, s ∈ spans ↔ s ∈ spans') : spans = spans' := by
  have hperm := (List.perm_ext_iff_of_nodup (nodup_of_pairwise h) (nodup_of_pairwise h')).2 hmem
  exact hperm.eq_of_pairwise
    (fun a b _ _ hab hba => absurd (hab.trans hba) (not_precedes_self a)) h h'

/-- **Spans in order are what merging makes** of any list of the same spans. -/
theorem merge_eq {found : List Span} (h : spans.Pairwise Precedes)
    (hmem : ∀ s, s ∈ found ↔ s ∈ spans) : merge found = spans :=
  eq_of_mem_iff (pairwise_merge found) h fun s => mem_merge.trans (hmem s)

end Span

/-! ## All code -/

/-- The lines of a token that may hold code. -/
def BlockToken.source? (token : BlockToken) : Option (Nat × Nat) :=
  match token.kind with
  | .fence | .codeBlock | .inline => token.lines
  | .other _ => none

/-- The tokens of a text that may hold code name lines of it, each of them one or more. -/
def LinesExist (t : Text) (tokens : List BlockToken) : Prop :=
  ∀ token ∈ tokens, ∀ lines ∈ token.source?, lines.1 < lines.2 ∧ lines.2 ≤ t.lines.length

section
variable {t : Text} {tokens : List BlockToken} {token : BlockToken} {first last : Nat} {s : Span}

theorem lineRange_of_lt (h : first < t.lines.length) (last : Nat) :
    lineRange t first last = ⟨t.lineOffset first, t.lineOffset last⟩ := by
  rw [lineRange, Nat.min_eq_left (Nat.le_of_lt_succ (h.trans_le t.length_lines_le))]

/-- The inline code of one line. -/
theorem inlineCodeOf_line {line : Text} {number : Nat} (h : t.lines[number]? = some line) :
    inlineCodeOf t (lineRange t number (number + 1)) = inlineCode (t.lineOffset number) line := by
  obtain ⟨hlt, -⟩ := List.getElem?_eq_some_iff.1 h
  rw [inlineCodeOf, lineRange_of_lt hlt, Span.of, Text.slice_lineOffset h]

theorem stacked_inlineCodeOf (hlt : first < last) (hle : last ≤ t.lines.length) :
    StackedSpans (t.lineOffset first) (t.lineOffset last)
      (inlineCodeOf t (lineRange t first last)) := by
  have hmono := t.monotone_lineOffset hlt.le
  rw [lineRange_of_lt (hlt.trans_le hle)]
  refine (stacked_inlineCode _ _).mono (Nat.le_refl _) ?_
  simp only [Span.of, Text.length_slice]
  omega

theorem BlockToken.spans_fence (t : Text) (first last : Nat) :
    (BlockToken.mk .fence (some (first, last))).spans t = [lineRange t first last] := rfl

theorem BlockToken.spans_inline (t : Text) (first last : Nat) :
    (BlockToken.mk .inline (some (first, last))).spans t =
      inlineCodeOf t (lineRange t first last) := rfl

/-- The code of a token, by its lines. -/
theorem exists_source_of_mem_spans (h : s ∈ token.spans t) :
    ∃ lines, token.source? = some lines := by
  obtain ⟨kind, lines⟩ := token
  cases kind <;> cases lines <;> first | exact ⟨_, rfl⟩ | cases h

theorem stacked_spans_token (h : token.source? = some (first, last)) (hlt : first < last)
    (hle : last ≤ t.lines.length) :
    StackedSpans (t.lineOffset first) (t.lineOffset last) (token.spans t) := by
  obtain ⟨kind, lines⟩ := token
  have hrange : StackedSpans (t.lineOffset first) (t.lineOffset last) [lineRange t first last] := by
    rw [lineRange_of_lt (hlt.trans_le hle)]
    exact .singleton (Nat.le_refl _) (Text.lineOffset_lt (hlt.trans_le hle) hlt) (Nat.le_refl _)
  cases kind with
  | fence | codeBlock =>
    cases h
    exact hrange
  | inline =>
    cases h
    exact stacked_inlineCodeOf hlt hle
  | other name => cases h

namespace CodeIndex

theorem mem_spans_ofTokens :
    s ∈ (ofTokens t tokens).spans ↔ ∃ token ∈ tokens, s ∈ token.spans t := by
  rw [ofTokens, Span.mem_merge, List.mem_flatMap]

theorem pairwise_precedes (t : Text) (tokens : List BlockToken) :
    (ofTokens t tokens).spans.Pairwise Span.Precedes := Span.pairwise_merge _

theorem pairwise_start_le (t : Text) (tokens : List BlockToken) :
    (ofTokens t tokens).spans.Pairwise fun a b => a.start ≤ b.start :=
  (pairwise_precedes t tokens).imp Span.Precedes.start_le

/-- **The spans of a text are parts of it**, and not empty. -/
theorem within_of_linesExist (h : LinesExist t tokens) :
    ∀ s ∈ (ofTokens t tokens).spans, s.start < s.stop ∧ s.stop ≤ t.length := by
  intro s hs
  obtain ⟨token, htoken, hs⟩ := mem_spans_ofTokens.1 hs
  obtain ⟨⟨first, last⟩, hsource⟩ := exists_source_of_mem_spans hs
  obtain ⟨hlt, hle⟩ := h token htoken _ hsource
  obtain ⟨-, hs, hstop⟩ := (stacked_spans_token hsource hlt hle).within s hs
  exact ⟨hs, hstop.trans (t.lineOffset_le_length last)⟩

end CodeIndex

end

/-! ## Ranges that meet code -/

namespace CodeIndex

/-- An offset lies in code. -/
def Covers (index : CodeIndex) (i : Nat) : Prop :=
  ∃ span ∈ index.spans, span.start ≤ i ∧ i < span.stop

/-- A range lies in one span of code. -/
def Contains (index : CodeIndex) (range : Span) : Prop :=
  ∃ span ∈ index.spans, span.start ≤ range.start ∧ range.stop ≤ span.stop

/-- The search for a span may end at the first one that starts behind the range. -/
theorem overlapping?_eq_find? {index : CodeIndex}
    (h : index.spans.Pairwise fun a b => a.start ≤ b.start) (start stop : Nat) :
    index.overlapping? start stop =
      index.spans.find? fun s => decide (s.start < stop) && decide (start < s.stop) := by
  obtain ⟨t, spans⟩ := index
  induction spans with
  | nil => rfl
  | cons s spans ih =>
    rw [List.pairwise_cons] at h
    simp only [overlapping?] at ih ⊢
    by_cases hs : s.start < stop
    · rw [List.takeWhile_cons_of_pos (by simpa using hs), List.find?_cons, List.find?_cons,
        ih h.2]
      simp [hs]
    · rw [List.takeWhile_cons_of_neg (by simpa using hs), List.find?_nil, eq_comm,
        List.find?_eq_none]
      intro s' hs'
      have : s.start ≤ s'.start := by
        rcases List.mem_cons.1 hs' with rfl | hs'
        · exact Nat.le_refl _
        · exact h.1 s' hs'
      simp only [Bool.and_eq_true, decide_eq_true_eq, not_and]
      omega

/-- No span of code reaches into the range from `start` up to `stop`. -/
def Clear (index : CodeIndex) (start stop : Nat) : Prop :=
  ∀ span ∈ index.spans, stop ≤ span.start ∨ span.stop ≤ start

section
variable {index : CodeIndex} {t : Text} {tokens : List BlockToken} {start stop : Nat}

/-- **No span is found for a range just if the range is clear of code.** -/
theorem overlapping?_eq_none_iff :
    (ofTokens t tokens).overlapping? start stop = none ↔
      (ofTokens t tokens).Clear start stop := by
  rw [overlapping?_eq_find? (pairwise_start_le t tokens), List.find?_eq_none]
  refine forall₂_congr fun span _ => ?_
  simp only [Bool.and_eq_true, decide_eq_true_eq, not_and_or, not_lt]

/-- No offset of a clear range lies in code. -/
theorem Clear.not_covers (h : index.Clear start stop) {i : Nat} (hi : start ≤ i) (hi' : i < stop) :
    ¬ index.Covers i := by
  rintro ⟨span, hspan, hs, hs'⟩
  have := h span hspan
  omega

/-- **A range is clear of code just if no offset of it lies in code**, since the spans of code are
    not empty. -/
theorem clear_iff (hlines : LinesExist t tokens) (h : start < stop) :
    (ofTokens t tokens).Clear start stop ↔
      ∀ i, start ≤ i → i < stop → ¬ (ofTokens t tokens).Covers i := by
  refine ⟨fun hclear i hi hi' => hclear.not_covers hi hi', fun hfree span hspan => ?_⟩
  have hlt := (within_of_linesExist hlines span hspan).1
  by_contra! hmeet
  exact hfree (max start span.start) (by omega) (by omega) ⟨span, hspan, by omega, by omega⟩

end

end CodeIndex

end MentionCommands
