/-
  Texts that differ in their line breaks only.

  * `Text.withLineFeeds`: a text with every break made a line feed;
  * `Text.units`: the characters of a text, where a carriage return stays together with the line
    feed behind it; `withLineFeeds_eq`: each unit becomes one character;
  * `Text.unitOffset`: where a unit starts, and so where a character of the text with line feeds
    comes from;
  * `lines_withLineFeeds`, `unitOffset_lineOffset`: the lines correspond one to one, and so do the
    places where they start.
-/
import MentionCommands.Proofs.Text.Lines

namespace MentionCommands

namespace Text

/-- A text with every line break made a line feed. -/
def withLineFeeds (t : Text) : Text := (t.replaceAll ['\r', '\n'] ['\n']).replaceAll ['\r'] ['\n']

/-- The characters of a text, where a carriage return and the line feed behind it are one. -/
def units : Text → List Text
  | [] => []
  | c :: rest =>
    match rest with
    | [] => [[c]]
    | d :: rest' =>
      if c = '\r' ∧ d = '\n' then [c, d] :: units rest' else [c] :: units (d :: rest')

/-- Where unit `n` starts: the length of all units before it. -/
def unitOffset (t : Text) (n : Nat) : Nat := (t.units.take n).flatten.length

/-- The character that a unit becomes: itself, or a line feed if it is a break. -/
def unify (u : Text) : Char := if u.head? = some '\r' then '\n' else u.headD '\n'

/-- A text that is a unit: a pair of carriage return and line feed, or one character. -/
inductive IsUnit : Text → Prop
  | pair : IsUnit ['\r', '\n']
  | single (c : Char) : IsUnit [c]

variable {c d : Char} {t rest : Text}

/-! ## Units -/

theorem units_pair (rest : Text) : units ('\r' :: '\n' :: rest) = ['\r', '\n'] :: units rest := by
  rw [units, if_pos ⟨rfl, rfl⟩]

theorem units_return (h : rest.head? ≠ some '\n') :
    units ('\r' :: rest) = ['\r'] :: units rest := by
  cases rest with
  | nil => rfl
  | cons d rest => rw [units, if_neg fun hd => h (congrArg some hd.2)]

theorem units_cons (h : c ≠ '\r') (rest : Text) : units (c :: rest) = [c] :: units rest := by
  cases rest with
  | nil => rfl
  | cons d rest => rw [units, if_neg fun hc => h hc.1]

/-- **Induction on the units of a text.** -/
theorem units_induction {motive : Text → Prop} (nil : motive [])
    (pair : ∀ rest, motive rest → motive ('\r' :: '\n' :: rest))
    (ret : ∀ rest, rest.head? ≠ some '\n' → motive rest → motive ('\r' :: rest))
    (cons : ∀ c rest, c ≠ '\r' → motive rest → motive (c :: rest)) (t : Text) : motive t := by
  fun_induction units t with
  | case1 => exact nil
  | case2 c =>
    by_cases hc : c = '\r'
    · subst hc
      exact ret [] nofun nil
    · exact cons c [] hc nil
  | case3 c d rest h ih =>
    obtain ⟨rfl, rfl⟩ := h
    exact pair rest ih
  | case4 c d rest h ih =>
    by_cases hc : c = '\r'
    · subst hc
      exact ret _ (fun hd => h ⟨rfl, Option.some.inj hd⟩) ih
    · exact cons c _ hc ih

theorem flatten_units (t : Text) : t.units.flatten = t := by
  induction t using units_induction with
  | nil => rfl
  | pair rest ih => rw [units_pair, List.flatten_cons, ih]; rfl
  | ret rest h ih => rw [units_return h, List.flatten_cons, ih]; rfl
  | cons c rest h ih => rw [units_cons h, List.flatten_cons, ih]; rfl

theorem isUnit_of_mem_units {u : Text} (h : u ∈ t.units) : IsUnit u := by
  induction t using units_induction with
  | nil => cases h
  | pair rest ih =>
    rw [units_pair] at h
    rcases List.mem_cons.1 h with rfl | h
    · exact .pair
    · exact ih h
  | ret rest hrest ih =>
    rw [units_return hrest] at h
    rcases List.mem_cons.1 h with rfl | h
    · exact .single _
    · exact ih h
  | cons c rest hc ih =>
    rw [units_cons hc] at h
    rcases List.mem_cons.1 h with rfl | h
    · exact .single _
    · exact ih h

/-! ## Line feeds -/

/-- A text with the pairs of carriage return and line feed made line feeds. -/
theorem replaceAll_pair (t : Text) :
    t.replaceAll ['\r', '\n'] ['\n'] = t.units.map fun u => u.getLast?.getD '\n' := by
  unfold replaceAll
  induction t using units_induction with
  | nil => rfl
  | pair rest ih =>
    rw [units_pair, List.map_cons, ← ih]
    rfl
  | ret rest h ih =>
    have hprefix : ¬ ['\r', '\n'] <+: '\r' :: rest := by
      intro hp
      obtain ⟨back, hback⟩ := (List.cons_prefix_cons.1 hp).2
      exact h (by rw [← hback]; rfl)
    rw [units_return h, List.map_cons, ← ih, replaceFrom_eq_cons _ hprefix]
    rfl
  | cons c rest h ih =>
    have hprefix : ¬ ['\r', '\n'] <+: c :: rest := fun hp => h (List.cons_prefix_cons.1 hp).1.symm
    rw [units_cons h, List.map_cons, ← ih, replaceFrom_eq_cons _ hprefix]
    rfl

/-- A text with one character made another one. -/
theorem replaceAll_singleton (c d : Char) (t : Text) :
    t.replaceAll [c] [d] = t.map fun e => if e = c then d else e := by
  unfold replaceAll
  induction t with
  | nil => rfl
  | cons e t ih =>
    by_cases he : e = c
    · subst he
      rw [List.map_cons, if_pos rfl, ← ih]
      simp [replaceFrom]
    · have hprefix : ¬ [c] <+: e :: t := fun hp => he (List.cons_prefix_cons.1 hp).1.symm
      rw [List.map_cons, if_neg he, ← ih, replaceFrom_eq_cons _ hprefix]

/-- **Each unit becomes one character.** -/
theorem withLineFeeds_eq (t : Text) : t.withLineFeeds = t.units.map unify := by
  rw [withLineFeeds, replaceAll_pair, replaceAll_singleton, List.map_map]
  refine List.map_congr_left fun u hu => ?_
  cases isUnit_of_mem_units hu with
  | pair => rfl
  | single c =>
    by_cases hc : c = '\r'
    · subst hc
      rfl
    · simp [unify, hc]

theorem withLineFeeds_pair (rest : Text) :
    withLineFeeds ('\r' :: '\n' :: rest) = '\n' :: withLineFeeds rest := by
  rw [withLineFeeds_eq, withLineFeeds_eq, units_pair]
  rfl

theorem withLineFeeds_return (h : rest.head? ≠ some '\n') :
    withLineFeeds ('\r' :: rest) = '\n' :: withLineFeeds rest := by
  rw [withLineFeeds_eq, withLineFeeds_eq, units_return h]
  rfl

theorem withLineFeeds_cons (h : c ≠ '\r') (rest : Text) :
    withLineFeeds (c :: rest) = c :: withLineFeeds rest := by
  rw [withLineFeeds_eq, withLineFeeds_eq, units_cons h, List.map_cons]
  simp [unify, h]

/-! ## Lines -/

theorem lines_eq_nil_iff : t.lines = [] ↔ t = [] :=
  ⟨fun h => by_contra fun ht => lines_ne_nil ht h, fun h => by rw [h]; rfl⟩

theorem units_eq_flatMap_lines (t : Text) : t.units = t.lines.flatMap units := by
  fun_induction lines t with
  | case1 => rfl
  | case2 rest ih => rw [units_cons (by decide), List.flatMap_cons, ih]; rfl
  | case3 => rfl
  | case4 rest _ ih => rw [units_pair, List.flatMap_cons, ih]; rfl
  | case5 d rest hd _ ih =>
    rw [units_return (by simpa using hd), List.flatMap_cons, ih]
    rfl
  | case6 c rest _ hr hrest _ =>
    rw [lines_eq_nil_iff.1 hrest, units_cons hr]
    rfl
  | case7 c rest _ hr first others hrest ih =>
    rw [units_cons hr, ih, hrest, List.flatMap_cons, List.flatMap_cons, units_cons hr]
    rfl

/-- **The lines of a text become the lines of the text with line feeds.** -/
theorem lines_withLineFeeds (t : Text) : t.withLineFeeds.lines = t.lines.map withLineFeeds := by
  fun_induction lines t with
  | case1 => rfl
  | case2 rest ih => rw [withLineFeeds_cons (by decide), lines_break, ih]; rfl
  | case3 => rfl
  | case4 rest _ ih => rw [withLineFeeds_pair, lines_break, ih]; rfl
  | case5 d rest hd _ ih =>
    rw [withLineFeeds_return (by simpa using hd), lines_break, ih]
    rfl
  | case6 c rest hn hr hrest _ =>
    rw [lines_eq_nil_iff.1 hrest, List.map_cons, withLineFeeds_cons hr]
    exact lines_single hn hr
  | case7 c rest hn hr first others hrest ih =>
    rw [hrest, List.map_cons] at ih
    rw [withLineFeeds_cons hr, lines_cons hn hr ih, List.map_cons, withLineFeeds_cons hr]

/-! ## Places -/

theorem flatten_flatMap_units (ls : List Text) : (ls.flatMap units).flatten = ls.flatten := by
  induction ls with
  | nil => rfl
  | cons l ls ih =>
    rw [List.flatMap_cons, List.flatten_append, flatten_units, ih, List.flatten_cons]

theorem flatten_map_withLineFeeds (ls : List Text) :
    (ls.map withLineFeeds).flatten = (ls.flatMap units).map unify := by
  induction ls with
  | nil => rfl
  | cons l ls ih =>
    rw [List.map_cons, List.flatten_cons, ih, withLineFeeds_eq, List.flatMap_cons, List.map_append]

/-- Behind the last unit the text ends. -/
theorem unitOffset_length (t : Text) : t.unitOffset t.withLineFeeds.length = t.length := by
  rw [unitOffset, withLineFeeds_eq, List.length_map, List.take_length, flatten_units]

theorem IsUnit.length_pos {u : Text} (h : IsUnit u) : 0 < u.length := by
  cases h <;> exact Nat.zero_lt_succ _

theorem unitOffset_lt_succ {t : Text} {n : Nat} (h : n < t.units.length) :
    t.unitOffset n < t.unitOffset (n + 1) := by
  have hpos := (isUnit_of_mem_units (List.getElem_mem h)).length_pos
  rw [unitOffset, unitOffset, List.take_add_one, List.getElem?_eq_getElem h, List.flatten_append,
    List.length_append]
  simpa using hpos

/-- **Each unit starts behind the one before it.** -/
theorem unitOffset_lt {t : Text} {i j : Nat} (h : i < j) (hj : j ≤ t.withLineFeeds.length) :
    t.unitOffset i < t.unitOffset j := by
  rw [withLineFeeds_eq, List.length_map] at hj
  induction j, h using Nat.le_induction with
  | base => exact unitOffset_lt_succ hj
  | succ j _ ih => exact (ih (Nat.le_of_succ_le hj)).trans (unitOffset_lt_succ hj)

theorem lineOffset_withLineFeeds (t : Text) (n : Nat) :
    t.withLineFeeds.lineOffset n = ((t.lines.take n).flatMap units).length := by
  rw [lineOffset, lines_withLineFeeds, ← List.map_take, flatten_map_withLineFeeds, List.length_map]

/-- Units are counted from the start of a line as they are from the start of the text. -/
theorem unitOffset_lineOffset_add (t : Text) (n k : Nat) :
    t.unitOffset (t.withLineFeeds.lineOffset n + k) =
      t.lineOffset n + (((t.lines.drop n).flatMap units).take k).flatten.length := by
  have hunits : t.units = (t.lines.take n).flatMap units ++ (t.lines.drop n).flatMap units := by
    rw [← List.flatMap_append, List.take_append_drop, ← units_eq_flatMap_lines]
  rw [unitOffset, hunits, lineOffset_withLineFeeds, List.take_length_add_append,
    List.flatten_append, List.length_append, flatten_flatMap_units, lineOffset]

/-- **A line starts where the corresponding line starts.** -/
theorem unitOffset_lineOffset (t : Text) (n : Nat) :
    t.unitOffset (t.withLineFeeds.lineOffset n) = t.lineOffset n :=
  unitOffset_lineOffset_add t n 0

/-- The lines from `first` up to `last` of the text with line feeds, where they stand in it. -/
theorem slice_lines_withLineFeeds (t : Text) (first last : Nat) :
    t.withLineFeeds.slice (t.withLineFeeds.lineOffset first) (t.withLineFeeds.lineOffset last) =
      (((t.lines.drop first).take (last - first)).flatMap units).map unify := by
  rw [slice_lines, lines_withLineFeeds, ← List.map_drop, ← List.map_take,
    flatten_map_withLineFeeds]

/-! ## Single lines -/

theorem withoutBreak_withLineFeeds (t : Text) :
    t.withLineFeeds.withoutBreak = t.withoutBreak := by
  unfold withoutBreak
  induction t using units_induction with
  | nil => rfl
  | pair rest _ => rw [withLineFeeds_pair]; rfl
  | ret rest h _ => rw [withLineFeeds_return h]; rfl
  | cons c rest h ih => rw [withLineFeeds_cons h, List.takeWhile_cons, List.takeWhile_cons, ih]

theorem isBroken_withLineFeeds (t : Text) : t.withLineFeeds.isBroken = t.isBroken := by
  unfold isBroken
  induction t using units_induction with
  | nil => rfl
  | pair rest _ => rw [withLineFeeds_pair]; rfl
  | ret rest h _ => rw [withLineFeeds_return h]; rfl
  | cons c rest h ih => rw [withLineFeeds_cons h, List.any_cons, List.any_cons, ih]

theorem breaks_withLineFeeds (t : Text) : t.withLineFeeds.breaks = t.breaks := by
  rw [breaks, lines_withLineFeeds, List.countP_map, breaks]
  exact congrArg (t.lines.countP ·) (funext isBroken_withLineFeeds)

end Text

end MentionCommands
