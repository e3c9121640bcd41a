/-
  The backtick rule.

  Which ranges of a text are inline code is told by its offsets: where runs of backticks start and
  stop, and where a reader stands that jumps over spans and over what a backslash takes along.

  * `RunFrom` and `RunAt`: backticks from an offset on, up to the last one, and all of a run;
    `closing?_cases`: the search for a closing run finds the first run of that length;
  * `Reaches`: a reader outside the spans gets to an offset; `Free`: it finds a backtick there;
    `OpensRun`: a run of free backticks starts there;
  * `BacktickRule`: the rule.  Each span is a run of free backticks up to the first run of the same
    length behind it, and behind any other run of free backticks no run of its length stands;
  * `Seam.rule_iff`: the rule for a text is the rule for a front of it, and for what stands behind;
  * `backtickRule_iff`: inline code is what the rule says, and nothing else is;
    `inlineCodeIn?_rule`: so is the inline code of a range.
-/
import Mathlib.Logic.Relation
import Mathlib.Order.Bounds.Basic
import MentionCommands.Proofs.Indexed.Code
import MentionCommands.Proofs.Indexed.Token

namespace MentionCommands

/-! ## Runs -/

/-- A backtick stands at an offset. -/
def TickAt (t : Text) (i : Nat) : Prop := t[i]? = some backtick

/-- So many backticks stand from an offset on, and no further one. -/
structure RunFrom (t : Text) (n i : Nat) : Prop where
  ticks : ∀ j, i ≤ j → j < i + n → TickAt t j
  behind : ¬ TickAt t (i + n)

/-- A run of so many backticks stands at an offset: no further one touches it on either side. -/
structure RunAt (t : Text) (n i : Nat) : Prop extends RunFrom t n i where
  before : ∀ j, j + 1 = i → ¬ TickAt t j

/-- Where runs of so many backticks stand from an offset on. -/
def closers (t : Text) (n i : Nat) : Set Nat := {j | i ≤ j ∧ RunAt t n j}

section
variable {t : Text} {n m i j : Nat}

theorem TickAt.lt_length (h : TickAt t i) : i < t.length := (List.getElem?_eq_some_iff.1 h).1

theorem tickAt_iff_head? : TickAt t i ↔ (t.drop i).head? = some backtick := by
  rw [TickAt, List.head?_drop]

namespace RunFrom

theorem tick (h : RunFrom t n i) (hn : 0 < n) : TickAt t i :=
  h.ticks i (Nat.le_refl i) (Nat.lt_add_of_pos_right hn)

theorem add_le_length (h : RunFrom t n i) (hn : 0 < n) : i + n ≤ t.length := by
  have := (h.ticks (i + (n - 1)) (Nat.le_add_right ..) (by omega)).lt_length
  omega

theorem unique (h : RunFrom t n i) (h' : RunFrom t m i) : n = m := by
  rcases Nat.lt_trichotomy n m with hlt | heq | hlt
  · exact absurd (h'.ticks (i + n) (by omega) (by omega)) h.behind
  · exact heq
  · exact absurd (h.ticks (i + m) (by omega) (by omega)) h'.behind

/-- A whole run that starts among these backticks is all of them. -/
theorem eq_of_runAt (h : RunFrom t m i) (h' : RunAt t n j) (hn : 0 < n) (hle : i ≤ j)
    (hlt : j ≤ i + m) : n = m := by
  rcases Nat.eq_or_lt_of_le hle with rfl | hij
  · exact h'.unique h
  rcases Nat.eq_or_lt_of_le hlt with rfl | hjm
  · exact absurd (h'.tick hn) h.behind
  · exact absurd (h.ticks (j - 1) (by omega) (by omega)) (h'.before (j - 1) (by omega))

/-- Behind backticks that are no run of the length looked for, the search starts anew. -/
theorem closers_eq (h : RunFrom t m i) (hn : 0 < n) (hne : m ≠ n) :
    closers t n i = closers t n (i + m + 1) := by
  ext j
  constructor
  · rintro ⟨hle, hj⟩
    refine ⟨?_, hj⟩
    by_contra hlt
    exact hne (h.eq_of_runAt hj hn hle (by omega)).symm
  · rintro ⟨hle, hj⟩
    exact ⟨by omega, hj⟩

/-- A run of the length looked for is found at once, if no backtick stands in front. -/
theorem isLeast_closers (h : RunFrom t n i) (hn : 0 < n)
    (hbefore : TickAt t i → ∀ j, j + 1 = i → ¬ TickAt t j) : IsLeast (closers t n i) i :=
  ⟨⟨Nat.le_refl i, h, hbefore (h.tick hn)⟩, fun _ hj => hj.1⟩

end RunFrom

/-- The run at an offset of a text. -/
theorem runFrom_run (t : Text) (i : Nat) : RunFrom t (Text.run backtick (t.drop i)) i := by
  constructor
  · intro j hle hlt
    obtain ⟨k, rfl⟩ := Nat.exists_eq_add_of_le hle
    have hk : k < Text.run backtick (t.drop i) := by omega
    rw [TickAt, ← List.getElem?_drop, ← Text.replicate_run_append backtick (t.drop i),
      List.getElem?_append_left (by simpa using hk), List.getElem?_replicate, if_pos hk]
  · rw [tickAt_iff_head?, ← List.drop_drop]
    exact Text.head?_drop_run _ _

/-- The search for a closing run, which has seen some backticks of a run already. -/
theorem closing?_seen {u : Text} {seen : Nat} (hn : 0 < n) (hu : t.drop (i + seen) = u)
    (hticks : ∀ j, i ≤ j → j < i + seen → TickAt t j)
    (hbefore : TickAt t i → ∀ j, j + 1 = i → ¬ TickAt t j) :
    (closing? n seen u = none ∧ closers t n i = ∅) ∨
    ∃ inner, closing? n seen u = some inner ∧ IsLeast (closers t n i) (i + inner) := by
  induction u generalizing i seen with
  | nil =>
    have hrun : RunFrom t seen i := ⟨hticks, by rw [tickAt_iff_head?, hu]; exact nofun⟩
    by_cases hseen : seen = n
    · subst hseen
      exact Or.inr ⟨0, if_pos rfl, hrun.isLeast_closers hn hbefore⟩
    · refine Or.inl ⟨if_neg hseen, ?_⟩
      have hlength := List.drop_eq_nil_iff.1 hu
      rw [hrun.closers_eq hn hseen, Set.eq_empty_iff_forall_notMem]
      rintro j ⟨hle, hj⟩
      have hlt := (hj.tick hn).lt_length
      omega
  | cons c u ih =>
    have hnext : t.drop (i + seen + 1) = u := by
      rw [← List.drop_drop, hu]
      rfl
    have hc : TickAt t (i + seen) ↔ c = backtick := by simp [tickAt_iff_head?, hu]
    by_cases htick : c = backtick
    · rw [closing?, if_pos htick]
      refine ih hnext (fun j hle hlt => ?_) hbefore
      rcases Nat.lt_succ_iff_lt_or_eq.1 hlt with hlt | rfl
      · exact hticks j hle hlt
      · exact hc.2 htick
    · have hrun : RunFrom t seen i := ⟨hticks, fun h => htick (hc.1 h)⟩
      rw [closing?, if_neg htick]
      by_cases hseen : seen = n
      · subst hseen
        exact Or.inr ⟨0, if_pos rfl, hrun.isLeast_closers hn hbefore⟩
      · rw [if_neg hseen, hrun.closers_eq hn hseen]
        have hafter : ∀ j, j + 1 = i + seen + 1 → ¬ TickAt t j := by
          rintro j ⟨⟩
          exact hrun.behind
        have hanew : t.drop (i + seen + 1 + 0) = u := hnext
        rcases ih hanew (by omega) (fun _ => hafter) with
          ⟨hnone, hempty⟩ | ⟨inner, hsome, hleast⟩
        · exact Or.inl ⟨by rw [hnone]; rfl, hempty⟩
        · refine Or.inr ⟨seen + 1 + inner, by rw [hsome]; rfl, ?_⟩
          rwa [← Nat.add_assoc, ← Nat.add_assoc]

/-- **The search for a closing run** finds the first run of that length behind a run, if there is
    one. -/
theorem closing?_cases (hrun : RunFrom t n i) (hn : 0 < n) :
    (closing? n 0 (t.drop (i + n)) = none ∧ closers t n (i + n) = ∅) ∨
    ∃ inner, closing? n 0 (t.drop (i + n)) = some inner ∧
      IsLeast (closers t n (i + n)) (i + n + inner) :=
  closing?_seen hn rfl (by omega) fun htick => absurd htick hrun.behind

end

/-! ## The rule -/

/-- An offset lies in one of the spans. -/
def Covered (spans : List Span) (i : Nat) : Prop :=
  ∃ span ∈ spans, span.start ≤ i ∧ i < span.stop

/-- A step of a reader.  Out of a span it comes to the end of the span; outside the spans it passes
    a character, and with a backslash also the character that the backslash takes along. -/
inductive Advances (t : Text) (spans : List Span) : Nat → Nat → Prop
  | past {i : Nat} {span : Span} (hspan : span ∈ spans) (hstart : span.start ≤ i)
      (hstop : i < span.stop) : Advances t spans i span.stop
  | escape {i : Nat} (hout : ¬ Covered spans i) (hslash : t[i]? = some '\\')
      (hlt : i + 1 < t.length) : Advances t spans i (i + 2)
  | char {i : Nat} (hout : ¬ Covered spans i) (hlt : i < t.length)
      (hlast : t[i]? = some '\\' → i + 1 = t.length) : Advances t spans i (i + 1)

/-- A reader gets from an offset to another one. -/
def Reaches (t : Text) (spans : List Span) : Nat → Nat → Prop :=
  Relation.ReflTransGen (Advances t spans)

/-- A backtick outside the spans that is not escaped: a reader stands in front of it. -/
structure Free (t : Text) (start : Nat) (spans : List Span) (i : Nat) : Prop where
  reached : Reaches t spans start i
  tick : TickAt t i
  outside : ¬ Covered spans i

/-- A run of backticks that are not escaped starts at an offset, and goes on up to the last one. -/
structure OpensRun (t : Text) (start : Nat) (spans : List Span) (n i : Nat) : Prop
    extends RunFrom t n i where
  pos : 0 < n
  reached : Reaches t spans start i
  first : ∀ j, j + 1 = i → ¬ Free t start spans j

/-- A span starts with a run that opens, and stops with the first run of that length behind it. -/
def Delimited (t : Text) (start : Nat) (spans : List Span) (span : Span) : Prop :=
  ∃ n k, OpensRun t start spans n span.start ∧ IsLeast (closers t n (span.start + n)) k ∧
    span.stop = k + n

/-- An offset lies in a run that opens and that no run of its length closes. -/
def Unclosed (t : Text) (start : Nat) (spans : List Span) (i : Nat) : Prop :=
  ∃ n a, OpensRun t start spans n a ∧ a ≤ i ∧ i < a + n ∧ closers t n (a + n) = ∅

/-- **The backtick rule** for a text from an offset on: the spans follow each other; each is
    delimited by a run that opens and by the first run of its length behind that one; and every
    backtick outside that is not escaped lies in a run that nothing closes. -/
structure BacktickRule (t : Text) (start : Nat) (spans : List Span) : Prop where
  stacked : StackedSpans start t.length spans
  delimited : ∀ span ∈ spans, Delimited t start spans span
  unclosed : ∀ i, Free t start spans i → Unclosed t start spans i

/-! ## Readers -/

section
variable {t : Text} {spans : List Span} {i j k n : Nat}

theorem Advances.lt (h : Advances t spans i j) : i < j := by
  cases h with
  | past _ _ hstop => exact hstop
  | escape => omega
  | char => omega

/-- **A reader has no choice** among spans that follow each other. -/
theorem Advances.rightUnique {lo hi : Nat} (hspans : StackedSpans lo hi spans) :
    Relator.RightUnique (Advances t spans) := by
  intro i j k hj hk
  cases hj with
  | past hspan hstart hstop =>
    cases hk with
    | past hspan' hstart' hstop' =>
      rw [hspans.eq_of_cover hspan hspan' ⟨hstart, hstop⟩ ⟨hstart', hstop'⟩]
    | escape hout | char hout => exact absurd ⟨_, hspan, hstart, hstop⟩ hout
  | escape hout hslash hlt =>
    cases hk with
    | past hspan hstart hstop => exact absurd ⟨_, hspan, hstart, hstop⟩ hout
    | escape => rfl
    | char _ _ hlast => exact absurd (hlast hslash) hlt.ne
  | char hout _ hlast =>
    cases hk with
    | past hspan hstart hstop => exact absurd ⟨_, hspan, hstart, hstop⟩ hout
    | escape _ hslash hlt => exact absurd (hlast hslash) hlt.ne
    | char => rfl

namespace Reaches

theorem le (h : Reaches t spans i j) : i ≤ j := by
  induction h with
  | refl => exact Nat.le_refl i
  | tail _ hstep ih => exact ih.trans hstep.lt.le

/-- A reader goes the same way if every step from its start on is the same. -/
theorem congr {spans' : List Span}
    (h : ∀ p q, i ≤ p → Advances t spans p q → Advances t spans' p q)
    (hreach : Reaches t spans i j) : Reaches t spans' i j := by
  induction hreach with
  | refl => exact .refl
  | tail hreach hstep ih => exact .tail ih (h _ _ (le hreach) hstep)

/-- A reader gets past backticks outside the spans one by one. -/
theorem ticks (h : ∀ j, i ≤ j → j < i + n → TickAt t j ∧ ¬ Covered spans j) :
    Reaches t spans i (i + n) := by
  induction n with
  | zero => exact .refl
  | succ n ih =>
    obtain ⟨htick, hout⟩ := h (i + n) (by omega) (by omega)
    refine .tail (ih fun j hle hlt => h j hle (by omega)) (.char hout htick.lt_length ?_)
    intro hslash
    rw [htick] at hslash
    cases hslash

end Reaches

/-- Behind its start a reader stands at the end of its first step, or further on. -/
theorem Advances.le_of_reaches {lo hi : Nat} (hstep : Advances t spans i j)
    (hspans : StackedSpans lo hi spans) (hreach : Reaches t spans i k) (hne : i ≠ k) : j ≤ k := by
  rcases hreach.cases_head with heq | ⟨j', hstep', hreach⟩
  · exact absurd heq hne
  · rw [Advances.rightUnique hspans hstep hstep']
    exact Reaches.le hreach

/-- A run at the start of a reader opens. -/
theorem RunFrom.opens (h : RunFrom t n i) (hn : 0 < n) : OpensRun t i spans n i := by
  refine ⟨h, hn, .refl, fun j hj hfree => ?_⟩
  have := hfree.reached.le
  omega

theorem not_covered_of_le (h : ∀ span ∈ spans, j < span.start) : ¬ Covered spans j := by
  rintro ⟨span, hspan, hle, -⟩
  exact Nat.not_lt.2 hle (h span hspan)

end

/-! ## Seams -/

/-- A reader comes from `i` to `i'` over the spans in front, and the others are still to come.  No
    run of backticks that it has found on its way goes on there. -/
structure Seam (t : Text) (front rest : List Span) (i i' : Nat) : Prop where
  front_stacked : StackedSpans i i' front
  rest_stacked : StackedSpans i' t.length rest
  le_length : i' ≤ t.length
  reached : Reaches t (front ++ rest) i i'
  fresh : TickAt t i' → ∀ j, j < i' → Reaches t (front ++ rest) i j → ¬ TickAt t j

namespace Seam

variable {t : Text} {front rest : List Span} {i i' j k n : Nat}

theorem stacked (h : Seam t front rest i i') : StackedSpans i t.length (front ++ rest) :=
  h.front_stacked.append h.rest_stacked h.reached.le h.le_length

theorem mem_iff (h : Seam t front rest i i') {span : Span} (hstop : i' < span.stop) :
    span ∈ front ++ rest ↔ span ∈ rest := by
  refine ⟨fun hspan => ?_, List.mem_append_right front⟩
  rcases List.mem_append.1 hspan with hspan | hspan
  · have := (h.front_stacked.within span hspan).2.2
    omega
  · exact hspan

theorem covered_iff (h : Seam t front rest i i') (hj : i' ≤ j) :
    Covered (front ++ rest) j ↔ Covered rest j := by
  constructor
  · rintro ⟨span, hspan, hstart, hstop⟩
    exact ⟨span, (h.mem_iff (by omega)).1 hspan, hstart, hstop⟩
  · rintro ⟨span, hspan, hcover⟩
    exact ⟨span, List.mem_append_right front hspan, hcover⟩

/-- Behind a seam the spans in front of it do not matter to a reader. -/
theorem advances_iff (h : Seam t front rest i i') (hj : i' ≤ j) :
    Advances t (front ++ rest) j k ↔ Advances t rest j k := by
  constructor
  · intro hstep
    cases hstep with
    | past hspan hstart hstop => exact .past ((h.mem_iff (by omega)).1 hspan) hstart hstop
    | escape hout hslash hlt => exact .escape (mt (h.covered_iff hj).2 hout) hslash hlt
    | char hout hlt hlast => exact .char (mt (h.covered_iff hj).2 hout) hlt hlast
  · intro hstep
    cases hstep with
    | past hspan hstart hstop => exact .past (List.mem_append_right front hspan) hstart hstop
    | escape hout hslash hlt => exact .escape (mt (h.covered_iff hj).1 hout) hslash hlt
    | char hout hlt hlast => exact .char (mt (h.covered_iff hj).1 hout) hlt hlast

/-- Every reader passes the seam. -/
theorem reaches_iff (h : Seam t front rest i i') (hj : i' ≤ j) :
    Reaches t (front ++ rest) i j ↔ Reaches t rest i' j := by
  constructor
  · intro hreach
    have hpast : Reaches t (front ++ rest) i' j := by
      rcases Relation.ReflTransGen.total_of_right_unique (Advances.rightUnique h.stacked)
        h.reached hreach with hpast | hback
      · exact hpast
      · obtain rfl := hj.antisymm (Reaches.le hback)
        exact .refl
    exact hpast.congr fun p q hp => (h.advances_iff hp).1
  · intro hreach
    exact h.reached.trans (hreach.congr fun p q hp => (h.advances_iff hp).2)

theorem free_iff (h : Seam t front rest i i') (hj : i' ≤ j) :
    Free t i (front ++ rest) j ↔ Free t i' rest j := by
  constructor
  · rintro ⟨hreach, htick, hout⟩
    exact ⟨(h.reaches_iff hj).1 hreach, htick, mt (h.covered_iff hj).2 hout⟩
  · rintro ⟨hreach, htick, hout⟩
    exact ⟨(h.reaches_iff hj).2 hreach, htick, mt (h.covered_iff hj).1 hout⟩

theorem opens_iff (h : Seam t front rest i i') (hj : i' ≤ j) :
    OpensRun t i (front ++ rest) n j ↔ OpensRun t i' rest n j := by
  constructor
  · rintro ⟨hrun, hn, hreach, hfirst⟩
    refine ⟨hrun, hn, (h.reaches_iff hj).1 hreach, fun k hk hfree => hfirst k hk ?_⟩
    exact (h.free_iff hfree.reached.le).2 hfree
  · rintro ⟨hrun, hn, hreach, hfirst⟩
    refine ⟨hrun, hn, (h.reaches_iff hj).2 hreach, fun k hk hfree => ?_⟩
    by_cases hle : i' ≤ k
    · exact hfirst k hk ((h.free_iff hle).1 hfree)
    · obtain rfl : j = i' := by omega
      exact h.fresh (hrun.tick hn) k (by omega) hfree.reached hfree.tick

theorem delimited_iff (h : Seam t front rest i i') {span : Span} (hspan : i' ≤ span.start) :
    Delimited t i (front ++ rest) span ↔ Delimited t i' rest span := by
  simp only [Delimited, h.opens_iff hspan]

theorem unclosed_iff (h : Seam t front rest i i') (hj : i' ≤ j) :
    Unclosed t i (front ++ rest) j ↔ Unclosed t i' rest j := by
  constructor
  · rintro ⟨n, a, hopens, hle, hlt, hnone⟩
    -- a run that the reader found on its way ends before the seam
    have ha : i' ≤ a := by
      by_contra hlt'
      exact h.fresh (hopens.ticks i' (by omega) (by omega)) a (by omega) hopens.reached
        (hopens.tick hopens.pos)
    exact ⟨n, a, (h.opens_iff ha).1 hopens, hle, hlt, hnone⟩
  · rintro ⟨n, a, hopens, hle, hlt, hnone⟩
    exact ⟨n, a, (h.opens_iff hopens.reached.le).2 hopens, hle, hlt, hnone⟩

/-- **The rule at a seam** is the rule for what stands in front, and the rule for the rest. -/
theorem rule_iff (h : Seam t front rest i i') :
    BacktickRule t i (front ++ rest) ↔
      (∀ span ∈ front, Delimited t i (front ++ rest) span) ∧
      (∀ j, j < i' → Free t i (front ++ rest) j → Unclosed t i (front ++ rest) j) ∧
      BacktickRule t i' rest := by
  have hstart (span : Span) (hspan : span ∈ rest) : i' ≤ span.start :=
    (h.rest_stacked.within span hspan).1
  constructor
  · rintro ⟨-, hdelimited, hunclosed⟩
    refine ⟨fun span hspan => hdelimited span (List.mem_append_left rest hspan),
      fun j _ => hunclosed j, h.rest_stacked, fun span hspan => ?_, fun j hfree => ?_⟩
    · have hmem := List.mem_append_right front hspan
      exact (h.delimited_iff (hstart span hspan)).1 (hdelimited span hmem)
    · have hj := hfree.reached.le
      exact (h.unclosed_iff hj).1 (hunclosed j ((h.free_iff hj).2 hfree))
  · rintro ⟨hdelimited, hunclosed, -, hdelimited', hunclosed'⟩
    refine ⟨h.stacked, fun span hspan => ?_, fun j hfree => ?_⟩
    · rcases List.mem_append.1 hspan with hspan | hspan
      · exact hdelimited span hspan
      · exact (h.delimited_iff (hstart span hspan)).2 (hdelimited' span hspan)
    · by_cases hj : i' ≤ j
      · exact (h.unclosed_iff hj).2 (hunclosed' j ((h.free_iff hj).1 hfree))
      · exact hunclosed j (Nat.lt_of_not_le hj) hfree

end Seam

/-! ## What is read at the front -/

section
variable {t : Text} {spans : List Span} {i i' k n : Nat}

namespace BacktickRule

theorem stacked_of_le (h : BacktickRule t i spans) (hle : ∀ span ∈ spans, i' ≤ span.start) :
    StackedSpans i' t.length spans :=
  ⟨h.stacked.ordered, fun span hspan => ⟨hle span hspan, (h.stacked.within span hspan).2⟩⟩

/-- No span starts in a run that nothing closes. -/
theorem add_le_start (h : BacktickRule t i spans) (hrun : RunFrom t n i)
    (hnone : closers t n (i + n) = ∅) {m : Nat} (hm : m ≤ n) :
    ∀ span ∈ spans, i + m ≤ span.start := by
  induction m with
  | zero => exact fun span hspan => (h.stacked.within span hspan).1
  | succ m ih =>
    intro span hspan
    have hspans := ih (Nat.le_of_succ_le hm)
    refine Nat.lt_of_le_of_ne (hspans span hspan) fun heq => ?_
    obtain ⟨l, k, hopens, hleast, -⟩ := h.delimited span hspan
    rw [← heq] at hopens hleast
    cases m with
    | zero =>
      -- the span would start with all of the run
      obtain rfl : l = n := hopens.unique hrun
      have hk : k ∈ closers t l (i + l) := hleast.1
      rw [hnone] at hk
      exact hk
    | succ m =>
      -- the span would start behind a free backtick
      have hfree (j : Nat) (hle : i ≤ j) (hlt : j < i + (m + 1)) :
          TickAt t j ∧ ¬ Covered spans j :=
        ⟨hrun.ticks j hle (by omega), not_covered_of_le fun span hspan =>
          hlt.trans_le (hspans span hspan)⟩
      obtain ⟨htick, hout⟩ := hfree (i + m) (by omega) (by omega)
      refine hopens.first (i + m) rfl ⟨.ticks fun j hle hlt => ?_, htick, hout⟩
      exact hfree j hle (by omega)

/-- A run that is closed starts a span. -/
theorem mem_of_closed (h : BacktickRule t i spans) (hrun : RunFrom t n i) (hn : 0 < n)
    (hleast : IsLeast (closers t n (i + n)) k) : ⟨i, k + n⟩ ∈ spans := by
  -- else the run at the start would be one that nothing closes
  have hcovered : Covered spans i := by
    by_contra hout
    obtain ⟨m, a, hopens, hle, -, hnone⟩ := h.unclosed i ⟨.refl, hrun.tick hn, hout⟩
    obtain rfl := hle.antisymm hopens.reached.le
    obtain rfl := hopens.unique hrun
    rw [hnone] at hleast
    exact hleast.1
  obtain ⟨span, hspan, hstart, -⟩ := hcovered
  have heq := hstart.antisymm (h.stacked.within span hspan).1
  obtain ⟨m, k', hopens, hleast', hend⟩ := h.delimited span hspan
  rw [heq] at hopens hleast'
  obtain rfl := hopens.unique hrun
  rw [hleast'.unique hleast] at hend
  rwa [← heq, ← hend]

end BacktickRule

/-- **The rule goes on behind a step** from a character that is no backtick. -/
theorem backtickRule_step (htick : ¬ TickAt t i) (hlength : i' ≤ t.length)
    (hstep : ∀ spans, ¬ Covered spans i → Advances t spans i i') :
    BacktickRule t i spans ↔ BacktickRule t i' spans := by
  have hne {j : Nat} (hj : TickAt t j) : i ≠ j := by
    rintro rfl
    exact htick hj
  have hlt := (hstep [] nofun).lt
  have hahead (hspans : StackedSpans i' t.length spans) : Advances t spans i i' :=
    hstep spans (not_covered_of_le fun span hspan => hlt.trans_le (hspans.within span hspan).1)
  have hseam (hspans : StackedSpans i' t.length spans) : Seam t [] spans i i' := by
    have hadvance := hahead hspans
    refine ⟨.nil, hspans, hlength, .single hadvance, fun _ j hj hreach htick' => ?_⟩
    exact Nat.not_lt.2 (hadvance.le_of_reaches hspans hreach (hne htick')) hj
  constructor
  · intro h
    have hopens (span : Span) (hspan : span ∈ spans) :
        Reaches t spans i span.start ∧ i ≠ span.start := by
      obtain ⟨n, _, hopens, -, -⟩ := h.delimited span hspan
      exact ⟨hopens.reached, hne (hopens.tick hopens.pos)⟩
    have hadvance : Advances t spans i i' := by
      refine hstep spans (not_covered_of_le fun span hspan => ?_)
      obtain ⟨hreach, hstart⟩ := hopens span hspan
      exact hreach.le.lt_of_ne hstart
    have hspans : StackedSpans i' t.length spans := by
      refine h.stacked_of_le fun span hspan => ?_
      obtain ⟨hreach, hstart⟩ := hopens span hspan
      exact hadvance.le_of_reaches h.stacked hreach hstart
    exact ((hseam hspans).rule_iff.1 h).2.2
  · intro h
    refine (hseam h.stacked).rule_iff.2 ⟨nofun, fun j hj hfree => ?_, h⟩
    have hle := (hahead h.stacked).le_of_reaches h.stacked hfree.reached (hne hfree.tick)
    exact absurd hle (Nat.not_le.2 hj)

/-- **The rule goes on behind a run** that nothing closes. -/
theorem backtickRule_literal (hrun : RunFrom t n i) (hn : 0 < n)
    (hnone : closers t n (i + n) = ∅) :
    BacktickRule t i spans ↔ BacktickRule t (i + n) spans := by
  have hseam (hspans : StackedSpans (i + n) t.length spans) : Seam t [] spans i (i + n) := by
    refine ⟨.nil, hspans, hrun.add_le_length hn, .ticks fun j hle hlt => ?_,
      fun htick => absurd htick hrun.behind⟩
    refine ⟨hrun.ticks j hle hlt, not_covered_of_le fun span hspan => ?_⟩
    exact hlt.trans_le (hspans.within span hspan).1
  constructor
  · intro h
    have hspans := h.stacked_of_le (h.add_le_start hrun hnone (Nat.le_refl n))
    exact ((hseam hspans).rule_iff.1 h).2.2
  · intro h
    refine (hseam h.stacked).rule_iff.2 ⟨nofun, fun j hj hfree => ?_, h⟩
    exact ⟨n, i, hrun.opens hn, hfree.reached.le, hj, hnone⟩

/-- **The rule starts with a span** where a run stands that is closed, and goes on behind it. -/
theorem backtickRule_code (hrun : RunFrom t n i) (hn : 0 < n)
    (hleast : IsLeast (closers t n (i + n)) k) :
    BacktickRule t i spans ↔
      ∃ rest, spans = ⟨i, k + n⟩ :: rest ∧ BacktickRule t (k + n) rest := by
  obtain ⟨hk, hcloser⟩ := hleast.1
  have hseam {rest : List Span} (hrest : StackedSpans (k + n) t.length rest) :
      Seam t [⟨i, k + n⟩] rest i (k + n) := by
    have hlt : i < k + n := by omega
    have hmem : (⟨i, k + n⟩ : Span) ∈ [⟨i, k + n⟩] ++ rest := List.mem_cons_self
    exact ⟨.singleton (Nat.le_refl i) hlt (Nat.le_refl _), hrest, hcloser.add_le_length hn,
      .single (.past hmem (Nat.le_refl i) hlt), fun htick => absurd htick hcloser.behind⟩
  constructor
  · intro h
    have hspan := h.mem_of_closed hrun hn hleast
    cases spans with
    | nil => cases hspan
    | cons head rest =>
      rcases List.mem_cons.1 hspan with rfl | hmem
      · exact ⟨rest, rfl, ((hseam h.stacked.tail).rule_iff.1 h).2.2⟩
      · have hhead := h.stacked.within head List.mem_cons_self
        have hbehind := (List.pairwise_cons.1 h.stacked.ordered).1 _ hmem
        simp only at hbehind
        omega
  · rintro ⟨rest, rfl, h⟩
    refine (hseam h.stacked).rule_iff.2 ⟨?_, fun j hj hfree => ?_, h⟩
    · rw [List.forall_mem_singleton]
      exact ⟨n, k, hrun.opens hn, hleast, rfl⟩
    · exact absurd ⟨_, List.mem_cons_self, hfree.reached.le, hj⟩ hfree.outside

/-- Behind the end of a text there is no inline code. -/
theorem backtickRule_end (hi : ¬ i < t.length) : BacktickRule t i spans ↔ spans = [] := by
  constructor
  · intro h
    cases spans with
    | nil => rfl
    | cons span rest =>
      have := h.stacked.within span List.mem_cons_self
      omega
  · rintro rfl
    refine ⟨.nil, nofun, fun j hfree => ?_⟩
    have hle := hfree.reached.le
    have hlt := hfree.tick.lt_length
    omega

end

/-! ## Inline code -/

/-- **The inline code of a text is what the rule says**, and nothing else is. -/
theorem backtickRule_iff (t : Text) (i : Nat) (spans : List Span) :
    BacktickRule t i spans ↔ spans = inlineCode i (t.drop i) := by
  refine Indexed.tail_induction (motive := fun i u =>
    ∀ spans, BacktickRule t i spans ↔ spans = inlineCode i u) ?_ ?_ i spans
  · intro i hi spans
    exact backtickRule_end hi
  · intro i c hi hget hdrop ih spans
    have htick : TickAt t i ↔ c = backtick := by rw [TickAt, hget, Option.some.injEq]
    by_cases hc : c = backtick
    · obtain ⟨n, hlen⟩ : ∃ n, Text.run backtick (t.drop i) = n := ⟨_, rfl⟩
      have hn : 0 < n := by
        rw [← hlen, hdrop, hc]
        simp [Text.run]
      have hrun : RunFrom t n i := hlen ▸ runFrom_run t i
      rw [inlineCode_run i hlen hn]
      simp only [List.drop_drop]
      rcases closing?_cases hrun hn with ⟨hnone, hempty⟩ | ⟨inner, hsome, hleast⟩
      · rw [hnone]
        exact (backtickRule_literal hrun hn hempty).trans (ih (i + n) (by omega) spans)
      · have hstop : i + (n + inner + n) = i + n + inner + n := by omega
        simp only [hsome, hstop]
        rw [backtickRule_code hrun hn hleast]
        simp only [ih (i + n + inner + n) (by omega), exists_eq_right]
    · have hplain := mt htick.1 hc
      by_cases hs : c = '\\' ∧ i + 1 < t.length
      · obtain ⟨rfl, hlt⟩ := hs
        rw [hdrop, List.drop_eq_getElem_cons hlt, inlineCode_escaped]
        have hnext := ih (i + 2) (by omega) spans
        refine (backtickRule_step hplain hlt fun spans hout => ?_).trans hnext
        exact .escape hout hget hlt
      · have hlast (hc : c = '\\') : i + 1 = t.length := by
          by_contra hne
          exact hs ⟨hc, by omega⟩
        rw [hdrop, inlineCode_unescaped i hc fun hc => List.drop_eq_nil_of_le (hlast hc).ge]
        have hnext := ih (i + 1) (by omega) spans
        refine (backtickRule_step hplain hi fun spans hout => ?_).trans hnext
        refine .char hout hi fun hslash => hlast ?_
        rw [hget] at hslash
        exact Option.some.inj hslash

/-- **Inline code is found by the backtick rule**, in every range of every text: the loop over the
    range ends with the spans that the rule allows, and the rule allows no others. -/
theorem inlineCodeIn?_rule {t : Text} {stop : Nat} (h : stop ≤ t.length) (start : Nat) :
    ∃ spans, Indexed.Source.inlineCode? t stop start = some spans ∧
      inlineCodeIn? t start stop = some spans ∧
      ∀ spans', BacktickRule (t.take stop) start spans' ↔ spans' = spans := by
  refine ⟨inlineCode start (t.slice start stop), Indexed.inlineCode?_eq h start, if_pos (Or.inl h),
    fun spans' => ?_⟩
  rw [backtickRule_iff, List.drop_take]
  rfl

/-- A run that nothing closes hides no span behind it, and a backslash in a span counts for
    nothing. -/
theorem inlineCodeIn?_rule_unclosed :
    11 ≤ "``a` \\`b`c`".toList.length ∧
    BacktickRule ("``a` \\`b`c`".toList.take 11) 0 [⟨3, 7⟩, ⟨8, 11⟩] := by
  have hlength : 11 ≤ "``a` \\`b`c`".toList.length := by decide
  obtain ⟨spans, -, hspans, hrule⟩ := inlineCodeIn?_rule hlength 0
  have hfound : inlineCodeIn? "``a` \\`b`c`".toList 0 11 = some [⟨3, 7⟩, ⟨8, 11⟩] := by
    decide +kernel
  rw [hfound] at hspans
  exact ⟨hlength, (hrule _).2 (Option.some.inj hspans)⟩

end MentionCommands
