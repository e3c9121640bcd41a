/-
  Where the lines of a text lie in it.

  * `monotone_lineOffset`, `lineOffset_of_lines`: where a line starts; `slice_lines`,
    `slice_lineOffset`: where lines and a single line stand;
  * `lines_append`: behind a line feed the lines start afresh; `lines_line`: a text without breaks
    is one line;
  * `length_lines_le`: every line but the last one ends in a break;
  * `lines_slice`: some lines of a text, read alone, are the same lines;
  * `isLineBreak_of_mem_line`: in a line, nothing but the break follows the first character of the
    break.
-/
import Mathlib.Data.List.Chain
import Mathlib.Order.Monotone.Basic
import MentionCommands.Text.Lines

namespace MentionCommands.Text

variable {t u line : Text} {c d : Char}

/-! ## Where lines start -/

theorem ne_nil_of_mem_lines {t line : Text} (h : line ∈ t.lines) : line ≠ [] := by
  fun_induction lines t with
  | case1 => cases h
  | case2 _ ih | case4 _ _ ih | case5 _ _ _ _ ih =>
    rcases List.mem_cons.1 h with rfl | h
    · simp
    · exact ih h
  | case3 | case6 =>
    rcases List.mem_singleton.1 h
    simp
  | case7 c rest _ _ first others hrest ih =>
    rcases List.mem_cons.1 h with rfl | h
    · simp
    · exact ih (by rw [hrest]; exact List.mem_cons_of_mem _ h)

theorem lineOffset_succ (t : Text) (n : Nat) :
    t.lineOffset (n + 1) = t.lineOffset n + (t.lines[n]?.getD []).length := by
  rw [lineOffset, lineOffset, List.take_add_one, List.flatten_append, List.length_append]
  cases t.lines[n]? <;> simp

theorem monotone_lineOffset (t : Text) : Monotone t.lineOffset :=
  monotone_nat_of_le_succ fun n => by rw [lineOffset_succ]; exact Nat.le_add_right ..

theorem lineOffset_lt {t : Text} {n m : Nat} (hn : n < t.lines.length) (h : n < m) :
    t.lineOffset n < t.lineOffset m := by
  refine Nat.lt_of_lt_of_le ?_ (t.monotone_lineOffset h)
  have := List.length_pos_iff.2 (ne_nil_of_mem_lines (List.getElem_mem hn))
  rw [Nat.succ_eq_add_one, lineOffset_succ, List.getElem?_eq_getElem hn, Option.getD_some]
  omega

theorem lineOffset_length_lines (t : Text) : t.lineOffset t.lines.length = t.length := by
  rw [lineOffset, List.take_length, flatten_lines]

theorem lineOffset_le_length (t : Text) (n : Nat) : t.lineOffset n ≤ t.length := by
  have h := congrArg List.length (congrArg List.flatten (List.take_append_drop n t.lines))
  rw [List.flatten_append, List.length_append, flatten_lines] at h
  rw [lineOffset]
  omega

/-! ## The first line -/

theorem lines_break (rest : Text) : lines ('\n' :: rest) = ['\n'] :: lines rest := by
  rw [lines.eq_def]
  rfl

theorem lines_return_break (rest : Text) :
    lines ('\r' :: '\n' :: rest) = ['\r', '\n'] :: lines rest := by
  rw [lines.eq_def]
  rfl

theorem lines_return (hd : d ≠ '\n') (rest : Text) :
    lines ('\r' :: d :: rest) = ['\r'] :: lines (d :: rest) := by
  rw [lines.eq_def]
  simp [hd]

theorem lines_cons (hn : c ≠ '\n') (hr : c ≠ '\r') {rest first : Text} {others : List Text}
    (h : lines rest = first :: others) : lines (c :: rest) = (c :: first) :: others := by
  rw [lines.eq_def]
  simp [hn, hr, h]

theorem lines_return_of_head (h : u.head? ≠ some '\n') :
    lines ('\r' :: u) = ['\r'] :: lines u := by
  cases u with
  | nil => rfl
  | cons d u => exact lines_return (fun hd => h (congrArg some hd)) u

theorem lines_single (hn : c ≠ '\n') (hr : c ≠ '\r') : lines [c] = [[c]] := by
  rw [lines.eq_def]
  simp [hn, hr, lines]

theorem lines_ne_nil (h : t ≠ []) : t.lines ≠ [] := by
  intro hlines
  have ht := flatten_lines t
  rw [hlines] at ht
  exact h ht.symm

theorem ne_of_not_isLineBreak (h : isLineBreak c = false) : c ≠ '\n' ∧ c ≠ '\r' := by
  simp only [isLineBreak, Bool.or_eq_false_iff, beq_eq_false_iff_ne] at h
  exact h.symm

/-- A text without breaks is the first line, through the line feed behind it. -/
theorem lines_line (h : ∀ c ∈ t, isLineBreak c = false) (rest : Text) :
    (t ++ '\n' :: rest).lines = (t ++ ['\n']) :: rest.lines := by
  induction t with
  | nil => exact lines_break rest
  | cons c t ih =>
    obtain ⟨hc, ht⟩ := List.forall_mem_cons.1 h
    obtain ⟨hn, hr⟩ := ne_of_not_isLineBreak hc
    exact lines_cons hn hr (ih ht)

/-- A text without breaks is one line, if it is not empty. -/
theorem lines_singleton (hne : t ≠ []) (h : ∀ c ∈ t, isLineBreak c = false) : t.lines = [t] := by
  induction t with
  | nil => exact absurd rfl hne
  | cons c t ih =>
    obtain ⟨hc, ht⟩ := List.forall_mem_cons.1 h
    obtain ⟨hn, hr⟩ := ne_of_not_isLineBreak hc
    cases t with
    | nil => exact lines_single hn hr
    | cons d t => exact lines_cons hn hr (ih (List.cons_ne_nil d t) ht)

theorem withoutBreak_append (h : ∀ c ∈ t, isLineBreak c = false)
    (hu : u.head?.all isLineBreak = true) : (t ++ u).withoutBreak = t := by
  have hbreak : u.takeWhile (!isLineBreak ·) = [] := by
    cases u with
    | nil => rfl
    | cons c u => exact List.takeWhile_cons_of_neg (by simpa using hu)
  rw [withoutBreak, List.takeWhile_append_of_pos (fun c hc => by simp [h c hc]), hbreak,
    List.append_nil]

/-! ## Breaks -/

/-- Every line of a text but the last one ends in a break. -/
theorem isChain_isBroken_lines (t : Text) :
    t.lines.IsChain fun line _ => line.isBroken = true := by
  fun_induction lines t with
  | case1 => exact .nil
  | case2 rest ih => exact List.isChain_cons.2 ⟨fun _ _ => by decide, ih⟩
  | case3 => exact .singleton _
  | case4 rest _ ih => exact List.isChain_cons.2 ⟨fun _ _ => by decide, ih⟩
  | case5 d rest _ _ ih => exact List.isChain_cons.2 ⟨fun _ _ => by decide, ih⟩
  | case6 => exact .singleton _
  | case7 c rest _ _ line lines hrest ih =>
    rw [hrest, List.isChain_cons] at ih
    refine List.isChain_cons.2 ⟨fun line' h => ?_, ih.2⟩
    have := ih.1 line' h
    simp only [isBroken, List.any_cons, Bool.or_eq_true] at this ⊢
    exact Or.inr this

theorem length_le_of_isChain {ls : List Text} (h : ls.IsChain fun line _ => line.isBroken = true) :
    ls.length ≤ ls.countP isBroken + 1 := by
  induction ls with
  | nil => exact Nat.zero_le _
  | cons line ls ih =>
    rw [List.isChain_cons] at h
    have hrest := ih h.2
    cases ls with
    | nil => exact Nat.le_add_left ..
    | cons line' ls =>
      rw [List.length_cons, List.countP_cons_of_pos (h.1 line' rfl)]
      omega

/-- **Every line but the last one ends in a break.** -/
theorem length_lines_le (t : Text) : t.lines.length ≤ t.breaks + 1 :=
  length_le_of_isChain (isChain_isBroken_lines t)

theorem breaks_of_lines (h : t.lines = line :: u.lines) (hline : line.isBroken = true) :
    t.breaks = u.breaks + 1 := by
  rw [breaks, h, List.countP_cons_of_pos hline, breaks]

theorem breaks_cons (hn : c ≠ '\n') (hr : c ≠ '\r') (rest : Text) :
    breaks (c :: rest) = breaks rest := by
  have hc : isLineBreak c = false := by simp [isLineBreak, hn, hr]
  have hbroken (line : Text) : isBroken (c :: line) = isBroken line := by simp [isBroken, hc]
  cases rest with
  | nil => simp [breaks, lines, hn, hr, isBroken, hc]
  | cons d rest =>
    obtain ⟨first, others, hrest⟩ :=
      List.exists_cons_of_ne_nil (lines_ne_nil (List.cons_ne_nil d rest))
    rw [breaks, lines_cons hn hr hrest, breaks, hrest, List.countP_cons, List.countP_cons, hbroken]

/-! ## Texts put together -/

theorem lines_append_break (t u : Text) :
    (t ++ '\n' :: u).lines = (t ++ ['\n']).lines ++ u.lines := by
  fun_induction lines t with
  | case1 => rw [List.nil_append, List.nil_append, lines_break, lines_break]; rfl
  | case2 rest ih => rw [List.cons_append, List.cons_append, lines_break, lines_break, ih]; rfl
  | case3 =>
    simp only [List.cons_append, List.nil_append]
    rw [lines_return_break, lines_return_break]
    rfl
  | case4 rest _ ih =>
    simp only [List.cons_append]
    rw [lines_return_break, lines_return_break, ih]
    rfl
  | case5 d rest hd _ ih =>
    simp only [List.cons_append] at ih ⊢
    rw [lines_return hd, lines_return hd, ih]
    rfl
  | case6 c rest hn hr _ ih | case7 c rest hn hr _ _ _ ih =>
    obtain ⟨first, others, h⟩ := List.exists_cons_of_ne_nil
      (lines_ne_nil (List.append_ne_nil_of_right_ne_nil rest (List.cons_ne_nil '\n' [])))
    have h' : lines (rest ++ '\n' :: u) = first :: (others ++ u.lines) := by
      rw [ih, h]
      rfl
    rw [List.cons_append, List.cons_append, lines_cons hn hr h, lines_cons hn hr h']
    rfl

theorem lines_append (h : ['\n'] <:+ t) (u : Text) : (t ++ u).lines = t.lines ++ u.lines := by
  obtain ⟨t, rfl⟩ := h
  rw [List.append_assoc]
  exact lines_append_break t u

/-- Lines that others follow are broken. -/
theorem isBroken_of_isChain {ls rest : List Text}
    (h : (ls ++ line :: rest).IsChain fun line _ => line.isBroken = true) :
    ∀ line ∈ ls, line.isBroken = true := by
  induction ls with
  | nil => exact nofun
  | cons line' ls ih =>
    rw [List.cons_append, List.isChain_cons] at h
    refine List.forall_mem_cons.2 ⟨?_, ih h.2⟩
    cases ls with
    | nil => exact h.1 line rfl
    | cons line'' ls => exact h.1 line'' rfl

theorem isBroken_of_lines {ls rest : List Text} (h : t.lines = ls ++ line :: rest) :
    ∀ line ∈ ls, line.isBroken = true := by
  have hchain := isChain_isBroken_lines t
  rw [h] at hchain
  exact isBroken_of_isChain hchain

theorem lineOffset_of_lines {front back : List Text} (h : t.lines = front ++ back) :
    t.lineOffset front.length = front.flatten.length := by
  rw [lineOffset, h, List.take_left]

/-! ## Some of the lines -/

theorem lines_flatten_tail (t : Text) : lines t.lines.tail.flatten = t.lines.tail := by
  fun_induction lines t with
  | case1 | case3 | case6 => rfl
  | case2 rest _ | case4 rest _ _ => exact congrArg lines (flatten_lines rest)
  | case5 d rest _ _ _ => exact congrArg lines (flatten_lines (d :: rest))
  | case7 c rest _ _ first others hrest ih =>
    rw [hrest] at ih
    exact ih

theorem lines_flatten_drop (t : Text) (n : Nat) :
    lines (t.lines.drop n).flatten = t.lines.drop n := by
  induction n with
  | zero => exact congrArg lines (flatten_lines t)
  | succ n ih =>
    have h := lines_flatten_tail (t.lines.drop n).flatten
    rwa [ih, List.tail_drop] at h

theorem lines_flatten_take (t : Text) (n : Nat) :
    lines (t.lines.take n).flatten = t.lines.take n := by
  fun_induction lines t generalizing n with
  | case1 => rw [List.take_nil]; rfl
  | case2 rest ih =>
    cases n with
    | zero => rfl
    | succ n => exact (lines_break _).trans (congrArg (['\n'] :: ·) (ih n))
  | case3 =>
    cases n with
    | zero => rfl
    | succ n => rw [List.take_succ_cons, List.take_nil]; rfl
  | case4 rest _ ih =>
    cases n with
    | zero => rfl
    | succ n => exact (lines_return_break _).trans (congrArg (['\r', '\n'] :: ·) (ih n))
  | case5 d rest hd _ ih =>
    cases n with
    | zero => rfl
    | succ n =>
      -- what stands behind the return starts as before, or is cut off
      have hhead : ((lines (d :: rest)).take n).flatten.head? ≠ some '\n' := by
        intro hfeed
        obtain ⟨u, hu⟩ := List.head?_eq_some_iff.1 hfeed
        have hparts := flatten_lines (d :: rest)
        rw [← List.take_append_drop n (lines (d :: rest)), List.flatten_append, hu] at hparts
        exact hd (List.cons.inj hparts).1.symm
      exact (lines_return_of_head hhead).trans (congrArg (['\r'] :: ·) (ih n))
  | case6 c rest hn hr _ _ =>
    cases n with
    | zero => rfl
    | succ n => rw [List.take_succ_cons, List.take_nil]; exact lines_single hn hr
  | case7 c rest hn hr first others hrest ih =>
    cases n with
    | zero => rfl
    | succ n =>
      have h := ih (n + 1)
      rw [hrest] at h
      exact lines_cons hn hr h

/-! ## Within a text -/

/-- The lines from `first` up to `last`, where they stand in the text. -/
theorem slice_lines (t : Text) (first last : Nat) :
    t.slice (t.lineOffset first) (t.lineOffset last) =
      ((t.lines.drop first).take (last - first)).flatten := by
  have hdrop : t.drop (t.lineOffset first) = (t.lines.drop first).flatten := by
    have ht : t = (t.lines.take first).flatten ++ (t.lines.drop first).flatten := by
      rw [← List.flatten_append, List.take_append_drop, flatten_lines]
    rw [lineOffset]
    nth_rewrite 2 [ht]
    rw [List.drop_left]
  rw [slice, hdrop]
  rcases Nat.le_total first last with h | h
  · obtain ⟨k, rfl⟩ := Nat.exists_eq_add_of_le h
    have hlen : t.lineOffset (first + k) - t.lineOffset first =
        ((t.lines.drop first).take k).flatten.length := by
      rw [lineOffset, lineOffset, List.take_add, List.flatten_append, List.length_append,
        Nat.add_sub_cancel_left]
    have hparts : (t.lines.drop first).flatten = ((t.lines.drop first).take k).flatten ++
        ((t.lines.drop first).drop k).flatten := by
      rw [← List.flatten_append, List.take_append_drop]
    rw [hlen, Nat.add_sub_cancel_left, hparts, List.take_left]
  · rw [Nat.sub_eq_zero_of_le h, Nat.sub_eq_zero_of_le (t.monotone_lineOffset h)]
    rfl

/-- **Some lines of a text, read alone, are the same lines.** -/
theorem lines_slice (t : Text) (first last : Nat) :
    lines (t.slice (t.lineOffset first) (t.lineOffset last)) =
      (t.lines.drop first).take (last - first) := by
  have h := lines_flatten_take (t.lines.drop first).flatten (last - first)
  rwa [lines_flatten_drop, ← slice_lines] at h

theorem slice_lineOffset {n : Nat} (h : t.lines[n]? = some line) :
    t.slice (t.lineOffset n) (t.lineOffset (n + 1)) = line := by
  obtain ⟨hlt, rfl⟩ := List.getElem?_eq_some_iff.1 h
  rw [slice_lines, List.drop_eq_getElem_cons hlt, Nat.add_sub_cancel_left, List.take_succ_cons,
    List.take_zero, List.flatten_singleton]

/-! ## Within a line -/

theorem isLineBreak_of_mem_line (h : line ∈ t.lines) (hc : c ∈ line)
    (hc' : c ∉ line.withoutBreak) : isLineBreak c = true := by
  fun_induction lines t generalizing line with
  | case1 => cases h
  | case2 rest ih =>
    rcases List.mem_cons.1 h with rfl | h
    · rcases List.mem_singleton.1 hc
      rfl
    · exact ih h hc hc'
  | case3 =>
    rcases List.mem_singleton.1 h
    rcases List.mem_singleton.1 hc
    rfl
  | case4 rest _ ih =>
    rcases List.mem_cons.1 h with rfl | h
    · rcases List.mem_pair.1 hc with rfl | rfl <;> rfl
    · exact ih h hc hc'
  | case5 d rest _ _ ih =>
    rcases List.mem_cons.1 h with rfl | h
    · rcases List.mem_singleton.1 hc
      rfl
    · exact ih h hc hc'
  | case6 c' rest hn hr _ _ =>
    rcases List.mem_singleton.1 h
    rcases List.mem_singleton.1 hc
    simp [withoutBreak, isLineBreak, hn, hr] at hc'
  | case7 c' rest hn hr first others hrest ih =>
    rcases List.mem_cons.1 h with rfl | h
    · have hbreak : isLineBreak c' = false := by simp [isLineBreak, hn, hr]
      have hbody : withoutBreak (c' :: first) = c' :: withoutBreak first :=
        List.takeWhile_cons_of_pos (by rw [hbreak]; rfl)
      rw [hbody, List.mem_cons, not_or] at hc'
      have hmem : first ∈ lines rest := by
        rw [hrest]
        exact List.mem_cons_self
      exact ih hmem ((List.mem_cons.1 hc).resolve_left hc'.1) hc'.2
    · exact ih (by rw [hrest]; exact List.mem_cons_of_mem _ h) hc hc'

end MentionCommands.Text
