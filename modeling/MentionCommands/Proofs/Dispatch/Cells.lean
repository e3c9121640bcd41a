/-
  Code in the cells of tables.

  A row of a table is read for inline code as a whole line, while its cells are texts of their own.

  * `IsCell row before cell`: a cell of a row, with the cells before it; `barred before` is what
    stands before the cell;
  * `ReachesOver`: inline code of the row reaches over the place where a cell starts.  It does not
    if the cells before are balanced (`not_reachesOver_of_balanced`);
  * `Session.cell_code_free`: where it does not, all code of the cell is code of the text, and no
    command is read from it.
-/
import MentionCommands.Proofs.Code.Parts
import MentionCommands.Proofs.Dispatch.Rule
import MentionCommands.Proofs.Text.Lines

namespace MentionCommands

/-! ## Cells -/

/-- Cells, each with the bar behind it. -/
def barred (cells : List Text) : Text := cells.flatMap (· ++ ['|'])

/-- A cell of a row, with the cells before it. -/
def IsCell (row : Text) (before : List Text) (cell : Text) : Prop :=
  ∃ behind, splitRow false row = before ++ cell :: behind

theorem splitRow_ne_nil (escaped : Bool) (row : Text) : splitRow escaped row ≠ [] := by
  fun_cases splitRow escaped row <;> exact List.cons_ne_nil _ _

/-- What one more character in front does to the parts of a row. -/
theorem splitRow_cons (escaped : Bool) (c : Char) (rest : Text) :
    (c = '|' ∧ escaped = false ∧ splitRow escaped (c :: rest) = [] :: splitRow false rest) ∨
    ∃ part parts, splitRow (c == '\\') rest = part :: parts ∧
      splitRow escaped (c :: rest) = (c :: part) :: parts := by
  by_cases h : c = '|' ∧ escaped = false
  · refine Or.inl ⟨h.1, h.2, ?_⟩
    rw [splitRow, if_pos h]
  · obtain ⟨part, parts, hparts⟩ := List.exists_cons_of_ne_nil (splitRow_ne_nil (c == '\\') rest)
    refine Or.inr ⟨part, parts, hparts, ?_⟩
    rw [splitRow, if_neg h, hparts]

variable {row cell : Text} {before behind : List Text}

/-- A row is what stands before a cell, the cell, and nothing or a bar behind it. -/
theorem exists_of_splitRow {escaped : Bool} (h : splitRow escaped row = before ++ cell :: behind) :
    ∃ back, row = barred before ++ (cell ++ back) ∧ back.head? ≠ some backtick := by
  induction row generalizing escaped before cell with
  | nil =>
    cases before with
    | nil =>
      obtain ⟨rfl, -⟩ := List.cons_eq_cons.1 h
      exact ⟨[], rfl, nofun⟩
    | cons part before => simp [splitRow] at h
  | cons c rest ih =>
    rcases splitRow_cons escaped c rest with ⟨rfl, -, hsplit⟩ | ⟨part, parts, hparts, hsplit⟩
    · rw [hsplit] at h
      cases before with
      | nil =>
        obtain ⟨rfl, -⟩ := List.cons_eq_cons.1 h
        exact ⟨'|' :: rest, rfl, nofun⟩
      | cons part before =>
        obtain ⟨rfl, hrest⟩ := List.cons_eq_cons.1 h
        obtain ⟨back, rfl, hback⟩ := ih hrest
        exact ⟨back, rfl, hback⟩
    · rw [hsplit] at h
      cases before with
      | nil =>
        obtain ⟨rfl, rfl⟩ := List.cons_eq_cons.1 h
        obtain ⟨back, rfl, hback⟩ := ih (show _ = [] ++ part :: parts from hparts)
        exact ⟨back, rfl, hback⟩
      | cons part' before =>
        obtain ⟨rfl, rfl⟩ := List.cons_eq_cons.1 h
        obtain ⟨back, rfl, hback⟩ := ih (show _ = (part :: before) ++ cell :: behind from hparts)
        exact ⟨back, rfl, hback⟩

/-- A cell that another one follows does not end in a backslash: a bar behind it would part
    nothing. -/
theorem getLast?_ne_of_splitRow {escaped : Bool}
    (h : splitRow escaped row = before ++ cell :: behind) :
    (escaped = true → before.head? ≠ some []) ∧ ∀ part ∈ before, part.getLast? ≠ some '\\' := by
  induction row generalizing escaped before cell with
  | nil =>
    cases before with
    | nil => exact ⟨nofun, nofun⟩
    | cons part before => simp [splitRow] at h
  | cons c rest ih =>
    rcases splitRow_cons escaped c rest with ⟨rfl, rfl, hsplit⟩ | ⟨part, parts, hparts, hsplit⟩
    · rw [hsplit] at h
      cases before with
      | nil => exact ⟨nofun, nofun⟩
      | cons part before =>
        obtain ⟨rfl, hrest⟩ := List.cons_eq_cons.1 h
        exact ⟨nofun, List.forall_mem_cons.2 ⟨nofun, (ih hrest).2⟩⟩
    · rw [hsplit] at h
      cases before with
      | nil => exact ⟨nofun, nofun⟩
      | cons part' before =>
        obtain ⟨rfl, rfl⟩ := List.cons_eq_cons.1 h
        obtain ⟨hfirst, hlast⟩ := ih (show _ = (part :: before) ++ cell :: behind from hparts)
        rw [List.forall_mem_cons] at hlast
        refine ⟨fun _ => by simp, List.forall_mem_cons.2 ⟨fun hpart => ?_, hlast.2⟩⟩
        cases part with
        | nil =>
          cases hpart
          exact hfirst rfl rfl
        | cons d part => exact hlast.1 (by rwa [List.getLast?_cons_cons] at hpart)

/-! ## Code of a row -/

theorem inlineCode_append {t u : Text} {ps : List Piece} (h : pieces (t ++ u) = ps ++ pieces u)
    (hps : ps.flatMap Piece.source = t) (offset : Nat) :
    inlineCode offset (t ++ u) = locate offset ps ++ inlineCode (offset + t.length) u := by
  rw [inlineCode, h, locate_append, hps]
  rfl

theorem pieces_barred (hbal : ∀ part ∈ before, isBalanced part = true)
    (hlast : ∀ part ∈ before, part.getLast? ≠ some '\\') (rest : Text) :
    pieces (barred before ++ rest) = pieces (barred before) ++ pieces rest := by
  induction before with
  | nil => rfl
  | cons part before ih =>
    rw [List.forall_mem_cons] at hbal hlast
    have hsplit (u : Text) : pieces (part ++ '|' :: u) = pieces part ++ .plain '|' :: pieces u := by
      rw [pieces_append hbal.1 hlast.1 (by simp [backtick]),
        pieces_plain u (by decide) (by decide)]
    have hbarred : barred (part :: before) = part ++ '|' :: barred before := by
      simp [barred]
    rw [hbarred, List.append_assoc, List.cons_append, hsplit, hsplit, ih hbal.2 hlast.2,
      List.append_assoc, List.cons_append]

theorem eq_bar_of_mem_getLast? {c : Char} (h : c ∈ (barred before).getLast?) : c = '|' := by
  induction before using List.reverseRecOn with
  | nil => cases h
  | append_singleton before part =>
    rw [barred, List.flatMap_append, List.flatMap_singleton, ← List.append_assoc,
      List.getLast?_concat] at h
    exact (Option.mem_some.1 h).symm

/-- Inline code of a text reaches over an offset, with the text at another offset. -/
def ReachesOver (offset : Nat) (t : Text) (place : Nat) : Prop :=
  ∃ span ∈ inlineCode offset t, span.start < place ∧ place < span.stop

/-- **Balanced cells keep their code to themselves.** -/
theorem not_reachesOver_of_balanced (h : IsCell row before cell)
    (hbal : ∀ part ∈ before, isBalanced part = true) (offset : Nat) :
    ¬ ReachesOver offset row (offset + (barred before).length) := by
  rintro ⟨span, hspan, hstart, hstop⟩
  obtain ⟨behind, hsplit⟩ := h
  obtain ⟨back, rfl, -⟩ := exists_of_splitRow hsplit
  have hpieces := pieces_barred hbal (getLast?_ne_of_splitRow hsplit).2 (cell ++ back)
  rw [inlineCode_append hpieces (flatMap_source_pieces _)] at hspan
  rcases List.mem_append.1 hspan with hspan | hspan
  · have := (stacked_inlineCode offset (barred before)).within span hspan
    omega
  · have := (stacked_inlineCode _ _).within span hspan
    omega

/-- **The code of a cell lies in the code of its row**, unless code of the row reaches over the
    place where the cell starts. -/
theorem exists_span_of_cell (h : IsCell row before cell) {offset : Nat}
    (hfree : ¬ ReachesOver offset row (offset + (barred before).length)) :
    ∀ span ∈ inlineCode (offset + (barred before).length) cell, ∃ span' ∈ inlineCode offset row,
      span'.start ≤ span.start ∧ span.stop ≤ span'.stop := by
  intro span hspan
  obtain ⟨behind, hsplit⟩ := h
  obtain ⟨back, rfl, hback⟩ := exists_of_splitRow hsplit
  have hlast : ∀ c ∈ (barred before).getLast?, c ≠ '\\' ∧ c ≠ backtick := by
    intro c hc
    rw [eq_bar_of_mem_getLast? hc]
    decide
  obtain ⟨ps, hps, hsource⟩ := exists_pieces_cut offset hlast
    fun span hspan hover => hfree ⟨span, hspan, hover⟩
  obtain ⟨span', hspan', hin⟩ := exists_span_append hback _ cell span hspan
  rw [inlineCode_append hps hsource]
  exact ⟨span', List.mem_append_right _ hspan', hin⟩

/-! ## Code of a text -/

variable {t : Text} {tokens : List BlockToken} {number : Nat}

/-- Where a cell of a row starts in a text. -/
def cellOffset (t : Text) (number : Nat) (before : List Text) : Nat :=
  t.lineOffset number + (barred before).length

theorem contains_of_cell (hrow : ⟨.inline, some (number, number + 1)⟩ ∈ tokens)
    (hline : t.lines[number]? = some row) (hcell : IsCell row before cell)
    (hfree : ¬ ReachesOver (t.lineOffset number) row (cellOffset t number before)) :
    ∀ span ∈ inlineCode (cellOffset t number before) cell,
      (CodeIndex.ofTokens t tokens).Contains span := by
  intro span hspan
  obtain ⟨span', hspan', hin⟩ := exists_span_of_cell hcell hfree span hspan
  refine ⟨span', CodeIndex.mem_spans_ofTokens.2 ⟨_, hrow, ?_⟩, hin⟩
  rwa [BlockToken.spans_inline, inlineCodeOf_line hline]

namespace Session

variable {s : Session} {bot : Text} {grammars : List Grammar}

/-- A command that is read lies before a range of code or behind it. -/
theorem Reachable.apart_of_matched (hs : s.Reachable t tokens bot grammars) {name : Text}
    {command : Command} (hr : s.report = .matched name command) {range : Span}
    (hrange : (CodeIndex.ofTokens t tokens).Contains range) :
    ∃ start, IsLeast {i | s.cursor ≤ i ∧ MentionAt t bot i} start ∧
      (max (start + (marker bot).length) s.next.cursor ≤ range.start ∨ range.stop ≤ start) := by
  obtain ⟨start, o, hd, hr', hn⟩ := hs.isOn.dispatches_of_report (by rw [hr]; rfl)
  have ho := report_eq_matched (hr'.symm.trans hr)
  have hcursor : s.next.cursor = o.position := by
    rw [hn, ho]
    rfl
  refine ⟨start, hd.first, ?_⟩
  rw [hcursor]
  obtain ⟨span, hspan, hstart, hstop⟩ := hrange
  exact (hd.free span hspan).imp (Nat.le_trans · hstart) hstop.trans

/-- **The code of a cell is found** where no code of its row reaches over the start of the cell, and
    none does if all cells before it are balanced.  No command is then read from the code of the
    cell. -/
theorem cell_code_free (hs : s.Reachable t tokens bot grammars)
    (hrow : ⟨.inline, some (number, number + 1)⟩ ∈ tokens)
    (hline : t.lines[number]? = some row) (hcell : IsCell row before cell) :
    ((∀ part ∈ before, isBalanced part = true) →
      ¬ ReachesOver (t.lineOffset number) row (cellOffset t number before)) ∧
    (¬ ReachesOver (t.lineOffset number) row (cellOffset t number before) →
      ∀ span ∈ inlineCode (cellOffset t number before) cell,
        (CodeIndex.ofTokens t tokens).Contains span ∧
        ∀ name command, s.report = .matched name command →
          ∃ start, IsLeast {i | s.cursor ≤ i ∧ MentionAt t bot i} start ∧
            (max (start + (marker bot).length) s.next.cursor ≤ span.start ∨
              span.stop ≤ start)) := by
  refine ⟨fun hbal => not_reachesOver_of_balanced hcell hbal _, fun hfree span hspan => ?_⟩
  have hfound := contains_of_cell hrow hline hcell hfree span hspan
  exact ⟨hfound, fun name command hr => hs.apart_of_matched hr hfound⟩

/-- A command in front of a table is read, and stands before the code of the second cell. -/
theorem cell_code_free_second :
    let t := "@bot claim.\n\n|`a`|`@bot claim`|\n|-|-|\n".toList
    let tokens : List BlockToken :=
      [⟨.inline, some (0, 1)⟩, ⟨.inline, some (2, 3)⟩, ⟨.inline, some (2, 3)⟩]
    commonMark t = some tokens ∧
    (CodeIndex.ofTokens t tokens).Contains ⟨18, 30⟩ ∧
    ∃ start, MentionAt t "bot".toList start ∧ (start + 4 ≤ 18 ∨ 30 ≤ start) := by
  intro t tokens
  have hs := reachable_ofTokens t tokens "bot".toList builtInGrammars
  have hcell : IsCell "|`a`|`@bot claim`|\n".toList [[], "`a`".toList] "`@bot claim`".toList :=
    ⟨["\n".toList], by decide +kernel⟩
  have hrow : ⟨.inline, some (2, 2 + 1)⟩ ∈ tokens := by decide
  obtain ⟨hbalanced, hcode⟩ := cell_code_free hs hrow (by decide +kernel) hcell
  have hfree := hbalanced (by decide +kernel)
  obtain ⟨hspan, hread⟩ := hcode hfree ⟨18, 30⟩ (by decide +kernel)
  obtain ⟨start, hfirst, hapart⟩ := hread "assign".toList (.assign .own) (by decide +kernel)
  refine ⟨by decide +kernel, hspan, start, hfirst.1.2, ?_⟩
  have hmark : (marker "bot".toList).length = 4 := by decide
  rw [hmark] at hapart
  exact hapart.imp_left (Nat.le_trans (Nat.le_max_left ..))

/-- A backtick in one cell takes the backtick that opens code in the next one, and a command is read
    from that code. -/
theorem cell_code_lost :
    let t : Text := "| ` | `@bot claim. ` |\n|---|---|\n".toList
    let tokens : List BlockToken := [⟨.inline, some (0, 1)⟩, ⟨.inline, some (0, 1)⟩]
    commonMark t = some tokens ∧
    (¬ ∀ (row cell : Text) (number : Nat) (before : List Text),
      ⟨.inline, some (number, number + 1)⟩ ∈ tokens →
      t.lines[number]? = some row → IsCell row before cell →
      ∀ span ∈ inlineCode (cellOffset t number before) cell,
        (CodeIndex.ofTokens t tokens).Contains span) ∧
    (ofTokens t tokens "bot".toList builtInGrammars).report =
      .matched "assign".toList (.assign .own) := by
  intro t tokens
  refine ⟨by decide +kernel, fun h => ?_, by decide +kernel⟩
  have hcell : IsCell "| ` | `@bot claim. ` |\n".toList [[], " ` ".toList]
      " `@bot claim. ` ".toList := ⟨["\n".toList], by decide +kernel⟩
  have hspans : (CodeIndex.ofTokens t tokens).spans = [⟨2, 7⟩] := by decide +kernel
  obtain ⟨span, hspan, -, hstop⟩ := h _ _ 0 _ (by decide) (by decide +kernel) hcell ⟨6, 20⟩
    (by decide +kernel)
  rw [hspans, List.mem_singleton] at hspan
  subst hspan
  simp at hstop

end Session

end MentionCommands
