/-
  The spans of a text, and the search for one of them.

  Code is found token by token, and some of it more than once, since the line of a row is scanned
  again for each of its cells.

  * `LinesApart`: no two tokens of a text name one line, unless they are cells of one row;
  * `SpansInOrder`: spans increase, are parts of the text that are not empty, and keep apart;
    `spansInOrder`: those of a text do;
  * `scanned t tokens again`: what is found if each token is scanned `again` times more;
    `merge_scanned`: this gives the spans of the index, so that further scans change nothing;
  * `overlapping?_eq_some_iff`: the span that is found for a range is the leftmost of those that
    share an offset with it, and `overlapping?_eq_none_iff_meets`: none is found if none does;
  * `spans_exact`: all of this for the index of a text.
-/
import MentionCommands.Markdown.Structure
import MentionCommands.Proofs.Code.Spans

namespace MentionCommands

namespace Span

/-- An offset belongs to a span. -/
def Has (s : Span) (i : Nat) : Prop := s.start ≤ i ∧ i < s.stop

/-- A span shares an offset with the range from `start` up to `stop`. -/
def Meets (s : Span) (start stop : Nat) : Prop := ∃ i, s.Has i ∧ start ≤ i ∧ i < stop

theorem meets_iff {a : Span} (h : a.start < a.stop) {start stop : Nat} (hrange : start < stop) :
    a.Meets start stop ↔ a.start < stop ∧ start < a.stop := by
  constructor
  · rintro ⟨i, ⟨hi, hi'⟩, hlo, hhi⟩
    omega
  · rintro ⟨hlo, hhi⟩
    exact ⟨max a.start start, ⟨by omega, by omega⟩, by omega, by omega⟩

end Span

/-! ## Spans in order -/

/-- Two tokens that may hold code name no line both, unless they are the same, as those of the cells
    of a row. -/
def BlockToken.Apart (a b : BlockToken) : Prop :=
  a = b ∨ ∀ lines ∈ a.source?, ∀ lines' ∈ b.source?, lines.2 ≤ lines'.1 ∨ lines'.2 ≤ lines.1

/-- The tokens of a text that may hold code name lines of it, and each of them its own. -/
structure LinesApart (t : Text) (tokens : List BlockToken) : Prop where
  exist : LinesExist t tokens
  apart : tokens.Pairwise BlockToken.Apart

/-- The spans increase, are parts of a text of `n` characters that are not empty, and share no
    offset with one another. -/
structure SpansInOrder (n : Nat) (spans : List Span) : Prop where
  increasing : spans.Pairwise Span.Precedes
  within : ∀ s ∈ spans, s.start < s.stop ∧ s.stop ≤ n
  apart : spans.Pairwise fun a b => ∀ i, ¬ (a.Has i ∧ b.Has i)

section
variable {t : Text} {tokens : List BlockToken} {a b : BlockToken} {s s' : Span}

theorem BlockToken.Apart.refl (a : BlockToken) : a.Apart a := Or.inl rfl

theorem BlockToken.Apart.symm (h : a.Apart b) : b.Apart a :=
  h.imp Eq.symm fun h lines hl lines' hl' => (h lines' hl' lines hl).symm

theorem LinesApart.of_mem (h : LinesApart t tokens) (ha : a ∈ tokens) (hb : b ∈ tokens) :
    a.Apart b :=
  List.Pairwise.forall_of_forall_of_flip (fun a _ => .refl a) h.apart
    (h.apart.imp BlockToken.Apart.symm) ha hb

/-- **Two spans of a text that share an offset are the same.** -/
theorem LinesApart.eq_of_has (h : LinesApart t tokens)
    (hs : s ∈ (CodeIndex.ofTokens t tokens).spans) (hs' : s' ∈ (CodeIndex.ofTokens t tokens).spans)
    {i : Nat} (hi : s.Has i) (hi' : s'.Has i) : s = s' := by
  obtain ⟨a, ha, hsa⟩ := CodeIndex.mem_spans_ofTokens.1 hs
  obtain ⟨b, hb, hsb⟩ := CodeIndex.mem_spans_ofTokens.1 hs'
  obtain ⟨⟨first, last⟩, hsource⟩ := exists_source_of_mem_spans hsa
  obtain ⟨⟨first', last'⟩, hsource'⟩ := exists_source_of_mem_spans hsb
  have hstack := stacked_spans_token hsource (h.exist a ha _ hsource).1 (h.exist a ha _ hsource).2
  have hstack' :=
    stacked_spans_token hsource' (h.exist b hb _ hsource').1 (h.exist b hb _ hsource').2
  rcases h.of_mem ha hb with rfl | hapart
  · exact hstack.eq_of_cover hsa hsb hi hi'
  · exfalso
    have hlo := hstack.within s hsa
    have hlo' := hstack'.within s' hsb
    obtain ⟨hstart, hstop⟩ := hi
    obtain ⟨hstart', hstop'⟩ := hi'
    rcases hapart _ hsource _ hsource' with hle | hle
    · have : t.lineOffset last ≤ t.lineOffset first' := t.monotone_lineOffset hle
      omega
    · have : t.lineOffset last' ≤ t.lineOffset first := t.monotone_lineOffset hle
      omega

/-- Code that holds a range goes no further than the span in which the range starts. -/
theorem LinesApart.stop_le_of_contains (h : LinesApart t tokens)
    (hs : s ∈ (CodeIndex.ofTokens t tokens).spans) {range : Span} (hstart : s.Has range.start)
    (hrange : range.start < range.stop) (hcode : (CodeIndex.ofTokens t tokens).Contains range) :
    range.stop ≤ s.stop := by
  obtain ⟨span, hspan, hlo, hhi⟩ := hcode
  rwa [h.eq_of_has hspan hs ⟨hlo, hrange.trans_le hhi⟩ hstart] at hhi

/-- A span that is all of the text is the only one. -/
theorem LinesApart.spans_eq_singleton (h : LinesApart t tokens)
    (hs : ⟨0, t.length⟩ ∈ (CodeIndex.ofTokens t tokens).spans) :
    (CodeIndex.ofTokens t tokens).spans = [⟨0, t.length⟩] := by
  refine Span.eq_of_mem_iff (CodeIndex.pairwise_precedes t tokens) (List.pairwise_singleton ..)
    fun s => ⟨fun hs' => ?_, fun hs' => List.mem_singleton.1 hs' ▸ hs⟩
  obtain ⟨hlt, hstop⟩ := CodeIndex.within_of_linesExist h.exist s hs'
  exact List.mem_singleton.2
    (h.eq_of_has hs' hs ⟨Nat.le_refl _, hlt⟩ ⟨Nat.zero_le _, hlt.trans_le hstop⟩)

theorem spansInOrder (h : LinesApart t tokens) :
    SpansInOrder t.length (CodeIndex.ofTokens t tokens).spans where
  increasing := CodeIndex.pairwise_precedes t tokens
  within := CodeIndex.within_of_linesExist h.exist
  apart := by
    refine (CodeIndex.pairwise_precedes t tokens).imp_of_mem fun {s s'} hs hs' hlt i hi => ?_
    rw [h.eq_of_has hs hs' hi.1 hi.2] at hlt
    exact Span.not_precedes_self s' hlt

/-! ## Scans -/

/-- What the scans of a text find, if each token is scanned so many times more. -/
def scanned (t : Text) (tokens : List BlockToken) (again : BlockToken → Nat) : List Span :=
  tokens.flatMap fun token => (List.replicate (again token + 1) (token.spans t)).flatten

theorem mem_scanned {again : BlockToken → Nat} :
    s ∈ scanned t tokens again ↔ s ∈ (CodeIndex.ofTokens t tokens).spans := by
  rw [CodeIndex.mem_spans_ofTokens]
  simp only [scanned, List.mem_flatMap, List.mem_flatten, List.mem_replicate]
  constructor
  · rintro ⟨token, htoken, _, ⟨-, rfl⟩, hs⟩
    exact ⟨token, htoken, hs⟩
  · rintro ⟨token, htoken, hs⟩
    exact ⟨token, htoken, _, ⟨Nat.succ_ne_zero _, rfl⟩, hs⟩

/-- **Scanning a token again changes nothing.** -/
theorem merge_scanned (t : Text) (tokens : List BlockToken) (again : BlockToken → Nat) :
    Span.merge (scanned t tokens again) = (CodeIndex.ofTokens t tokens).spans :=
  Span.merge_eq (CodeIndex.pairwise_precedes t tokens) fun _ => mem_scanned

end

/-! ## Searches -/

namespace CodeIndex

/-- A span is the leftmost one of an index that meets a range. -/
structure Leftmost (index : CodeIndex) (start stop : Nat) (s : Span) : Prop where
  mem : s ∈ index.spans
  meets : s.Meets start stop
  least : ∀ s' ∈ index.spans, s'.Meets start stop → s.start ≤ s'.start

section
variable {t : Text} {tokens : List BlockToken} {start stop : Nat} {s : Span}

/-- What the search tests of a span is whether it meets the range. -/
theorem test_iff_meets (hlines : LinesExist t tokens) (h : start < stop)
    (hs : s ∈ (ofTokens t tokens).spans) :
    (decide (s.start < stop) && decide (start < s.stop)) = true ↔ s.Meets start stop := by
  rw [Span.meets_iff (within_of_linesExist hlines s hs).1 h, Bool.and_eq_true, decide_eq_true_eq,
    decide_eq_true_eq]

theorem overlapping?_eq_none_iff_meets (hlines : LinesExist t tokens) (h : start < stop) :
    (ofTokens t tokens).overlapping? start stop = none ↔
      ∀ s ∈ (ofTokens t tokens).spans, ¬ s.Meets start stop := by
  rw [overlapping?_eq_find? (pairwise_start_le t tokens), List.find?_eq_none]
  exact forall₂_congr fun s hs => not_congr (test_iff_meets hlines h hs)

/-- **The span that is found is the leftmost one that meets the range**, if spans keep apart. -/
theorem overlapping?_eq_some_iff (hlines : LinesApart t tokens) (h : start < stop) :
    (ofTokens t tokens).overlapping? start stop = some s ↔
      (ofTokens t tokens).Leftmost start stop s := by
  have hordered := pairwise_precedes t tokens
  have htest {s : Span} (hs : s ∈ (ofTokens t tokens).spans) := test_iff_meets hlines.exist h hs
  rw [overlapping?_eq_find? (pairwise_start_le t tokens), List.find?_eq_some_iff_append]
  constructor
  · rintro ⟨hs, front, back, hspans, hfront⟩
    have hmem : s ∈ (ofTokens t tokens).spans := by
      rw [hspans]
      exact List.mem_append_right _ List.mem_cons_self
    refine ⟨hmem, (htest hmem).1 hs, fun s' hs' hmeet => ?_⟩
    have htrue := (htest hs').2 hmeet
    rw [hspans] at hs' hordered
    rcases List.mem_append.1 hs' with hfound | hfound
    · have := hfront s' hfound
      rw [htrue] at this
      cases this
    · rcases List.mem_cons.1 hfound with rfl | hfound
      · exact Nat.le_refl _
      · exact ((List.pairwise_cons.1 (List.pairwise_append.1 hordered).2.1).1 s' hfound).start_le
  · rintro ⟨hmem, hmeet, hleast⟩
    obtain ⟨front, back, hspans⟩ := List.append_of_mem hmem
    refine ⟨(htest hmem).2 hmeet, front, back, hspans, fun s' hfound => ?_⟩
    have hs' : s' ∈ (ofTokens t tokens).spans := by
      rw [hspans]
      exact List.mem_append_left _ hfound
    rw [hspans] at hordered
    have hprec := (List.pairwise_append.1 hordered).2.2 s' hfound s List.mem_cons_self
    -- a span before this one that met the range would start with it, and so be the same
    rw [Bool.not_eq_true', Bool.eq_false_iff, Ne, htest hs']
    intro hmeet'
    have hstart : s'.start = s.start := Nat.le_antisymm hprec.start_le (hleast s' hs' hmeet')
    have hhas : s.Has s.start := ⟨Nat.le_refl _, (within_of_linesExist hlines.exist s hmem).1⟩
    have hhas' : s'.Has s.start :=
      ⟨hstart.le, hstart ▸ (within_of_linesExist hlines.exist s' hs').1⟩
    rw [hlines.eq_of_has hs' hmem hhas' hhas] at hprec
    exact Span.not_precedes_self s hprec

end

/-- **The spans of a text are in order, and a search in them is exact**, if the tokens of the text
    name lines of their own. -/
theorem spans_exact {t : Text} {tokens : List BlockToken} (hlines : LinesApart t tokens) :
    SpansInOrder t.length (ofTokens t tokens).spans ∧
    (∀ again, Span.merge (scanned t tokens again) = (ofTokens t tokens).spans) ∧
    ∀ start stop, start < stop →
      (∀ s, (ofTokens t tokens).overlapping? start stop = some s ↔
        (ofTokens t tokens).Leftmost start stop s) ∧
      ((ofTokens t tokens).overlapping? start stop = none ↔
        ∀ s ∈ (ofTokens t tokens).spans, ¬ s.Meets start stop) :=
  ⟨spansInOrder hlines, merge_scanned t tokens, fun _ _ h =>
    ⟨fun _ => overlapping?_eq_some_iff hlines h, overlapping?_eq_none_iff_meets hlines.exist h⟩⟩

/-- In a row the code of the first cell is found for a range that meets both, and none between
    the two. -/
theorem spans_exact_row :
    let t : Text := "|`a`|`b`|\n|-|-|\n".toList
    let tokens : List BlockToken := [⟨.inline, some (0, 1)⟩, ⟨.inline, some (0, 1)⟩]
    commonMark t = some tokens ∧ LinesApart t tokens ∧
    (ofTokens t tokens).Leftmost 2 9 ⟨1, 4⟩ ∧
    ∀ s ∈ (ofTokens t tokens).spans, ¬ s.Meets 4 5 := by
  intro t tokens
  have hline : 0 < 1 ∧ 1 ≤ t.lines.length := by decide +kernel
  have hlines : LinesApart t tokens := by
    refine ⟨fun token htoken lines hlines => ?_, List.pairwise_pair.2 (.refl _)⟩
    obtain rfl : token = ⟨.inline, some (0, 1)⟩ := (List.mem_pair.1 htoken).elim id id
    obtain rfl : (0, 1) = lines := Option.some.inj hlines
    exact hline
  obtain ⟨-, -, hsearch⟩ := spans_exact hlines
  have hfound : (ofTokens t tokens).overlapping? 2 9 = some ⟨1, 4⟩ := by
    decide +kernel
  have hnone : (ofTokens t tokens).overlapping? 4 5 = none := by
    decide +kernel
  exact ⟨by decide +kernel, hlines, ((hsearch 2 9 (by decide)).1 _).1 hfound,
    (hsearch 4 5 (by decide)).2.1 hnone⟩

end CodeIndex

end MentionCommands
