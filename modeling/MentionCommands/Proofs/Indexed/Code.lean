/-
  Code, found by index.

  The scans of this library follow the characters of a text.  The loops here look characters up by
  their offsets, and line starts by their numbers; a look-up out of range has no result, and
  neither has a loop that never ends.

  * `Source.runEnd?`, `Source.closingRun?` and `Source.inlineCode?` are the loops over a range of a
    text; `inlineCode?_eq`: they never leave the text, and find what `inlineCode` finds;
  * `lineRange?` looks up where lines start; `lineRange?_eq`: no line number leads out of range, and
    what is found is `lineRange`;
  * `codeIndex?_eq`: so the code of a text is found without a look-up out of range.
-/
import MentionCommands.Proofs.Code.Parts
import MentionCommands.Proofs.Text.Lines

namespace MentionCommands.Indexed

/-- A text that is read by index. -/
abbrev Source := Text

/-! ## Loops -/

/-- The end of the run of backticks at an index. -/
def Source.runEnd? (t : Source) (stop index : Nat) : Option Nat := do
  if index < stop then
    let c ← t[index]?
    if c = backtick then t |>.runEnd? stop (index + 1)
    else return index
  else return index
partial_fixpoint

/-- The end of the next run of so many backticks, if there is one. -/
def Source.closingRun? (t : Source) (stop length index : Nat) : Option (Option Nat) := do
  if index < stop then
    match Text.indexOf? [backtick] (t.slice index stop) with
    | none => return none
    | some behind =>
      let runEnd ← t.runEnd? stop (index + behind)
      if runEnd - (index + behind) = length then return some runEnd
      else t |>.closingRun? stop length runEnd
  else return none
partial_fixpoint

/-- The inline code from an index on. -/
def Source.inlineCode? (t : Source) (stop index : Nat) : Option (List Span) := do
  if index < stop then
    let c ← t[index]?
    if c = '\\' ∧ index + 1 < stop then t |>.inlineCode? stop (index + 2)
    else if c ≠ backtick then t |>.inlineCode? stop (index + 1)
    else
      let runEnd ← t.runEnd? stop index
      match ← t.closingRun? stop (runEnd - index) runEnd with
      | none => t |>.inlineCode? stop runEnd
      | some closing =>
        let rest ← t |>.inlineCode? stop closing
        return ⟨index, closing⟩ :: rest
  else return []
partial_fixpoint

/-! ## Windows -/

section
variable {t : Text} {stop index n seen : Nat}

theorem drop_slice (t : Text) (index stop k : Nat) :
    (t.slice index stop).drop k = t.slice (index + k) stop := by
  rw [Text.slice, Text.slice, List.drop_take, List.drop_drop, Nat.sub_add_eq]

theorem slice_of_lt (h : stop ≤ t.length) (hi : index < stop) :
    ∃ c, t[index]? = some c ∧ t.slice index stop = c :: t.slice (index + 1) stop := by
  obtain ⟨k, rfl⟩ := Nat.exists_eq_add_of_lt hi
  have hlt : index < t.length := by omega
  have hlen : index + k + 1 - index = k + 1 := by omega
  have hlen' : index + k + 1 - (index + 1) = k := by omega
  refine ⟨t[index], List.getElem?_eq_getElem hlt, ?_⟩
  rw [Text.slice, Text.slice, List.drop_eq_getElem_cons hlt, hlen, hlen', List.take_succ_cons]

theorem slice_of_not_lt (hi : ¬ index < stop) : t.slice index stop = [] := by
  rw [Text.slice, Nat.sub_eq_zero_of_le (Nat.le_of_not_lt hi), List.take_zero]

/-- **Induction on a window of a text**: it is empty, or it starts with the character at its index,
    which lies in the text. -/
theorem window_induction {motive : Nat → Text → Prop} (h : stop ≤ t.length)
    (nil : ∀ index, ¬ index < stop → motive index [])
    (cons : ∀ index c, index < stop → t[index]? = some c →
      t.slice index stop = c :: t.slice (index + 1) stop →
      (∀ j, index < j → motive j (t.slice j stop)) → motive index (t.slice index stop))
    (index : Nat) : motive index (t.slice index stop) := by
  induction hn : stop - index using Nat.strong_induction_on generalizing index with
  | _ n ih =>
    by_cases hi : index < stop
    · obtain ⟨c, hget, hslice⟩ := slice_of_lt h hi
      refine cons index c hi hget hslice fun j hj => ?_
      exact ih (stop - j) (by omega) j rfl
    · rw [slice_of_not_lt hi]
      exact nil index hi

/-! ## Runs -/

theorem runEnd?_eq (h : stop ≤ t.length) (index : Nat) :
    Source.runEnd? t stop index = some (index + Text.run backtick (t.slice index stop)) := by
  refine window_induction (motive := fun index u =>
    Source.runEnd? t stop index = some (index + Text.run backtick u)) h ?_ ?_ index
  · intro index hi
    rw [Source.runEnd?, if_neg hi]
    rfl
  · intro index c hi hget hslice ih
    rw [Source.runEnd?, if_pos hi, hget, hslice]
    by_cases hc : c = backtick
    · have hnext := ih (index + 1) (Nat.lt_succ_self index)
      subst hc
      simp [hnext, Text.run, Nat.add_assoc, Nat.add_comm 1]
    · simp [hc, Text.run]

/-- The first occurrence of a character parts a text. -/
theorem indexOf?_singleton (c : Char) (u : Text) :
    (Text.indexOf? [c] u = none ∧ c ∉ u) ∨
    ∃ front back, u = front ++ c :: back ∧ c ∉ front ∧ Text.indexOf? [c] u = some front.length := by
  induction u with
  | nil => exact Or.inl ⟨rfl, List.not_mem_nil⟩
  | cons d u ih =>
    by_cases hd : c = d
    · subst hd
      exact Or.inr ⟨[], u, rfl, List.not_mem_nil, by simp [Text.indexOf?]⟩
    · have hstep : Text.indexOf? [c] (d :: u) = (Text.indexOf? [c] u).map (· + 1) := by
        simp [Text.indexOf?, hd]
      rw [hstep]
      rcases ih with ⟨hnone, hnot⟩ | ⟨front, back, rfl, hnot, hsome⟩
      · exact Or.inl ⟨by rw [hnone]; rfl, by simp [hd, hnot]⟩
      · exact Or.inr ⟨d :: front, back, rfl, by simp [hd, hnot], by rw [hsome]; rfl⟩

/-- A run of backticks is the one looked for, or the search goes on behind it. -/
theorem closing?_run (hn : 0 < n) (seen : Nat) (u : Text) :
    closing? n seen u =
      if seen + Text.run backtick u = n then some 0
      else (closing? n 0 (u.drop (Text.run backtick u))).map
        (seen + Text.run backtick u + ·) := by
  induction u generalizing seen with
  | nil => simp [closing?, Text.run, hn.ne]
  | cons c u ih =>
    by_cases hc : c = backtick
    · subst hc
      have hrun : Text.run backtick (backtick :: u) = Text.run backtick u + 1 := by simp [Text.run]
      rw [closing?, if_pos rfl, ih, hrun, List.drop_succ_cons, Nat.add_right_comm seen 1,
        Nat.add_assoc seen]
    · have hrun : Text.run backtick (c :: u) = 0 := by simp [Text.run, hc]
      rw [hrun, List.drop_zero, Nat.add_zero, closing?, if_neg hc]
      by_cases hs : seen = n
      · rw [if_pos hs, if_pos hs]
      · rw [if_neg hs, if_neg hs, closing?, if_neg hc, if_neg hn.ne, Option.map_map]
        simp [Function.comp_def, Nat.add_assoc]

theorem closingRun?_eq (h : stop ≤ t.length) (hn : 0 < n) (index : Nat) :
    Source.closingRun? t stop n index =
      some ((closing? n 0 (t.slice index stop)).map (index + · + n)) := by
  refine window_induction (motive := fun index u =>
    Source.closingRun? t stop n index = some ((closing? n 0 u).map (index + · + n))) h ?_ ?_ index
  · intro index hi
    rw [Source.closingRun?, if_neg hi]
    simp [closing?, hn.ne]
  · intro index c hi hget hslice ih
    rw [Source.closingRun?, if_pos hi]
    rcases indexOf?_singleton backtick (t.slice index stop) with
      ⟨hnone, hnot⟩ | ⟨front, back, hparts, hnot, hsome⟩
    · have hclosing := closing?_append_of_not_mem hn hnot []
      rw [List.append_nil] at hclosing
      rw [hnone, hclosing]
      simp [closing?, hn.ne]
    · -- the run behind `front` is looked at
      have hrest : t.slice (index + front.length) stop = backtick :: back := by
        rw [← drop_slice, hparts, List.drop_left]
      have hpos : 0 < Text.run backtick (backtick :: back) := by simp [Text.run]
      rw [hsome, hparts, closing?_append_of_not_mem hn hnot, closing?_run hn 0, Nat.zero_add]
      simp only [runEnd?_eq h, hrest, Option.bind_eq_bind, Option.bind_some,
        Nat.add_sub_cancel_left]
      generalize hrun : Text.run backtick (backtick :: back) = run at hpos ⊢
      by_cases hlen : run = n
      · rw [if_pos hlen, if_pos hlen, hlen]
        simp
      · have hnext := ih (index + front.length + run) (by omega)
        rw [if_neg hlen, if_neg hlen, hnext, ← drop_slice, hrest, Option.map_map, Option.map_map]
        congr 2
        funext m
        simp only [Function.comp_apply]
        omega

/-! ## Inline code -/

/-- The loop at a run of backticks, which opens inline code if a run of its length follows. -/
theorem inlineCode?_run (h : stop ≤ t.length) (hi : index < stop)
    (hget : t[index]? = some backtick)
    (hslice : t.slice index stop = backtick :: t.slice (index + 1) stop)
    (ih : ∀ j, index < j → Source.inlineCode? t stop j = some (inlineCode j (t.slice j stop))) :
    Source.inlineCode? t stop index = some (inlineCode index (t.slice index stop)) := by
  have hpos : 0 < Text.run backtick (t.slice index stop) := by
    rw [hslice]
    simp [Text.run]
  have htick : ¬ (backtick = '\\' ∧ index + 1 < stop) := fun h => absurd h.1 (by decide)
  rw [Source.inlineCode?, if_pos hi, hget, inlineCode_run index rfl hpos]
  simp only [Option.bind_eq_bind, Option.bind_some, if_neg htick, ne_eq, not_true_eq_false,
    if_false, runEnd?_eq h, Nat.add_sub_cancel_left, closingRun?_eq h hpos, ← drop_slice]
  generalize Text.run backtick (t.slice index stop) = run at hpos ⊢
  cases closing? run 0 ((t.slice index stop).drop run) with
  | none =>
    simp only [drop_slice]
    exact ih (index + run) (by omega)
  | some inner =>
    have hnext := ih (index + run + inner + run) (by omega)
    simp only [drop_slice, Option.map_some, hnext, ← Nat.add_assoc]
    rfl

/-- **The loop never leaves the text**, and finds the inline code of the range. -/
theorem inlineCode?_eq (h : stop ≤ t.length) (index : Nat) :
    Source.inlineCode? t stop index = some (inlineCode index (t.slice index stop)) := by
  refine window_induction (motive := fun index u =>
    Source.inlineCode? t stop index = some (inlineCode index u)) h ?_ ?_ index
  · intro index hi
    rw [Source.inlineCode?, if_neg hi]
    rfl
  · intro index c hi hget hslice ih
    by_cases hs : c = '\\' ∧ index + 1 < stop
    · obtain ⟨d, -, hslice'⟩ := slice_of_lt h hs.2
      rw [Source.inlineCode?, if_pos hi, hget]
      simp only [Option.bind_eq_bind, Option.bind_some, if_pos hs]
      rw [hslice, hslice', hs.1, inlineCode_escaped]
      exact ih (index + 2) (by omega)
    · by_cases hc : c = backtick
      · subst hc
        exact inlineCode?_run h hi hget hslice ih
      · have hlast (hc : c = '\\') : t.slice (index + 1) stop = [] :=
          slice_of_not_lt fun hlt => hs ⟨hc, hlt⟩
        rw [Source.inlineCode?, if_pos hi, hget]
        simp only [Option.bind_eq_bind, Option.bind_some, if_neg hs, if_pos hc]
        rw [hslice, inlineCode_unescaped index hc hlast]
        exact ih (index + 1) (Nat.lt_succ_self index)

end

/-! ## Lines -/

/-- The indices behind the line breaks of a text that starts at an offset. -/
def breakEnds (offset : Nat) : Text → List Nat
  | [] => []
  | c :: rest =>
    if c = '\n' then (offset + 1) :: breakEnds (offset + 1) rest
    else if c = '\r' then
      match rest with
      | [] => [offset + 1]
      | d :: rest' =>
        if d = '\n' then (offset + 2) :: breakEnds (offset + 2) rest'
        else (offset + 1) :: breakEnds (offset + 1) (d :: rest')
    else breakEnds (offset + 1) rest

/-- The indices at which lines start; behind a last break an empty line starts. -/
def lineStarts (t : Text) : List Nat := 0 :: breakEnds 0 t

/-- The range of the lines from `first` up to `last`, by their starts. -/
def lineRange? (t : Text) (first last : Nat) : Option Span := do
  let starts := lineStarts t
  let start ← starts[min first (starts.length - 1)]?
  if last < starts.length then
    let stop ← starts[last]?
    return ⟨start, stop⟩
  else return ⟨start, t.length⟩

theorem getD_line_cons {offset : Nat} {t rest first : Text} {ends : List Nat}
    (hlines : t.lines = first :: rest.lines)
    (h : ∀ k, ((offset + first.length) :: ends)[k]?.getD (offset + first.length + rest.length) =
      offset + first.length + rest.lineOffset k) (k : Nat) :
    (offset :: (offset + first.length) :: ends)[k]?.getD (offset + t.length) =
      offset + t.lineOffset k := by
  have hlen : t.length = first.length + rest.length := by
    rw [← Text.flatten_lines t, hlines, List.flatten_cons, List.length_append, Text.flatten_lines]
  cases k with
  | zero => rfl
  | succ k =>
    have hoffset : t.lineOffset (k + 1) = first.length + rest.lineOffset k := by
      rw [Text.lineOffset, hlines, List.take_succ_cons, List.flatten_cons, List.length_append,
        Text.lineOffset]
    rw [List.getElem?_cons_succ, hlen, hoffset, ← Nat.add_assoc, ← Nat.add_assoc]
    exact h k

/-- **A line starts where the lines before it end**; no line starts behind the last one. -/
theorem getD_breakEnds (offset : Nat) (t : Text) (k : Nat) :
    (offset :: breakEnds offset t)[k]?.getD (offset + t.length) = offset + t.lineOffset k := by
  fun_induction breakEnds offset t generalizing k with
  | case1 offset => cases k <;> simp [Text.lineOffset, Text.lines]
  | case2 offset rest ih => exact getD_line_cons (Text.lines_break rest) ih k
  | case3 offset =>
    have hlines : Text.lines ['\r'] = ['\r'] :: Text.lines [] := rfl
    refine getD_line_cons hlines (fun k => ?_) k
    cases k <;> simp [Text.lineOffset, Text.lines]
  | case4 offset rest _ ih => exact getD_line_cons (Text.lines_return_break rest) ih k
  | case5 offset d rest hd _ ih => exact getD_line_cons (Text.lines_return hd rest) ih k
  | case6 offset c rest hn hr ih =>
    have hlen : offset + (c :: rest).length = offset + 1 + rest.length := by
      rw [List.length_cons, Nat.add_comm rest.length, Nat.add_assoc]
    cases k with
    | zero => rfl
    | succ k =>
      have hnext := ih (k + 1)
      have hoffset : Text.lineOffset (c :: rest) (k + 1) = 1 + Text.lineOffset rest (k + 1) := by
        cases rest with
        | nil =>
          simp [Text.lineOffset, Text.lines, hn, hr]
        | cons d rest =>
          obtain ⟨first, others, hrest⟩ :=
            List.exists_cons_of_ne_nil (Text.lines_ne_nil (List.cons_ne_nil d rest))
          rw [Text.lineOffset, Text.lineOffset, Text.lines_cons hn hr hrest, hrest]
          simp [Nat.add_comm 1]
      rw [hlen, hoffset, ← Nat.add_assoc]
      exact hnext

theorem getD_lineStarts (t : Text) (k : Nat) :
    (lineStarts t)[k]?.getD t.length = t.lineOffset k := by
  have h := getD_breakEnds 0 t k
  rwa [Nat.zero_add, Nat.zero_add] at h

theorem length_breakEnds (offset : Nat) (t : Text) : (breakEnds offset t).length = t.breaks := by
  fun_induction breakEnds offset t with
  | case1 | case3 => rfl
  | case2 offset rest ih =>
    rw [List.length_cons, ih, Text.breaks_of_lines (Text.lines_break rest) (by decide)]
  | case4 offset rest _ ih =>
    rw [List.length_cons, ih, Text.breaks_of_lines (Text.lines_return_break rest) (by decide)]
  | case5 offset d rest hd _ ih =>
    rw [List.length_cons, ih, Text.breaks_of_lines (Text.lines_return hd rest) (by decide)]
  | case6 offset c rest hn hr ih => rw [ih, Text.breaks_cons hn hr]

/-- **Lines are found where they are**, whatever their numbers: a look-up of lines never fails. -/
theorem lineRange?_eq (t : Text) (first last : Nat) :
    lineRange? t first last = some (lineRange t first last) := by
  have hlast := getD_lineStarts t last
  have hfirst := getD_lineStarts t (min first t.breaks)
  have hlength : (lineStarts t).length - 1 = t.breaks := length_breakEnds 0 t
  have hlt : min first t.breaks < (lineStarts t).length := by
    rw [lineStarts, List.length_cons, length_breakEnds]
    omega
  rw [List.getElem?_eq_getElem hlt, Option.getD_some] at hfirst
  rw [lineRange?, lineRange]
  simp only [hlength, List.getElem?_eq_getElem hlt, hfirst, Option.bind_eq_bind, Option.bind_some]
  by_cases hl : last < (lineStarts t).length
  · rw [List.getElem?_eq_getElem hl, Option.getD_some] at hlast
    rw [if_pos hl, List.getElem?_eq_getElem hl, Option.bind_some, hlast]
    rfl
  · rw [List.getElem?_eq_none (Nat.le_of_not_lt hl), Option.getD_none] at hlast
    rw [if_neg hl, hlast]
    rfl

/-! ## All code -/

/-- The code in the lines of a token, by index. -/
def tokenSpans? (t : Text) (token : BlockToken) : Option (List Span) :=
  match token.lines with
  | none => some []
  | some (first, last) => do
    let range ← lineRange? t first last
    match token.kind with
    | .fence | .codeBlock => return [range]
    | .inline => Source.inlineCode? t range.stop range.start
    | .other _ => return []

/-- The code of a text that a parser reads, by index. -/
def codeIndex? (parse : BlockParser) (t : Text) : Option CodeIndex := do
  let tokens ← parse t
  let spans ← tokens.mapM (tokenSpans? t)
  return ⟨t, Span.merge spans.flatten⟩

theorem tokenSpans?_eq (t : Text) (token : BlockToken) :
    tokenSpans? t token = some (token.spans t) := by
  obtain ⟨kind, _ | ⟨first, last⟩⟩ := token
  · cases kind <;> rfl
  · rw [tokenSpans?]
    simp only [lineRange?_eq, Option.bind_eq_bind, Option.bind_some]
    cases kind with
    | fence | codeBlock | other => rfl
    | inline => exact inlineCode?_eq (t.lineOffset_le_length last) _

theorem mapM_eq_some {α β : Type} {f : α → Option β} {g : α → β} {l : List α}
    (h : ∀ a ∈ l, f a = some (g a)) : l.mapM f = some (l.map g) := by
  induction l with
  | nil => rfl
  | cons a l ih =>
    obtain ⟨ha, hl⟩ := List.forall_mem_cons.1 h
    rw [List.mapM_cons, ha, ih hl]
    rfl

/-- **The code of a text is found without a look-up out of range**, whatever tokens the parser
    gives. -/
theorem codeIndex?_eq (parse : BlockParser) (t : Text) :
    codeIndex? parse t = CodeIndex.ofText? parse t := by
  rw [codeIndex?, CodeIndex.ofText?]
  cases parse t with
  | none => rfl
  | some tokens =>
    simp only [mapM_eq_some fun token _ => tokenSpans?_eq t token, Option.bind_eq_bind,
      Option.bind_some, Option.map_some, CodeIndex.ofTokens, List.flatMap_def]
    rfl

end MentionCommands.Indexed
