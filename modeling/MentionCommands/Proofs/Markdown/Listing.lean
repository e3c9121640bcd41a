/-
  Lists whose items are one line each and start with inline code.

  * `codeItem n body`: such an item, behind a star; `codeItems` are several of them in a row;
  * `blocksFrom_shown`: an item holds its own line and none of the next ones;
  * `prose_mem_blocksFrom`: every item of a list is a leaf of prose.
-/
import MentionCommands.Proofs.Markdown.Fenced
import MentionCommands.Proofs.Markdown.Laws

namespace MentionCommands

/-! ## Items -/

/-- The item of a list that shows inline code, which opens in front of `body`. -/
def codeItem (n : Nat) (body : Text) : Line :=
  ⟨n, '*' :: ' ' :: backtick :: body, 1, 0, false, true⟩

/-- Items one after another, with the numbers from `n` on. -/
def codeItems (n : Nat) : List Text → List Line
  | [] => []
  | body :: bodies => codeItem n body :: codeItems (n + 1) bodies

/-- The line of an item without its star. -/
def shownItem (n : Nat) (body : Text) : Line := ⟨n, backtick :: body, 3, 0, false, true⟩

/-- The frame of such an item. -/
def itemFrame : Frame := ⟨3, some 0⟩

/-- The mark of such an item. -/
def itemStar (body : Text) : ItemMark := ⟨.bullet '*', none, 1, ' ' :: backtick :: body⟩

section
variable {quote blocked list : Reader} {n : Nat} {body : Text} {bodies : List Text}

/-- No bar makes a row of a table of an item. -/
theorem IsItemBody.noBar (h : IsItemBody body) : '|' ∉ body :=
  fun hbar => absurd (h.plain _ hbar) (by decide)

theorem isOutside_codeItem : (codeItem n body).isOutside .outermost = false := rfl

theorem isCode_codeItem : (codeItem n body).isCode .outermost = false := rfl

theorem interruptsList_codeItem : interruptsList .outermost (codeItem n body) = false := by
  simp [interruptsList, codeItem, Fence.opening?, Line.isCode, Frame.outermost, Fence.ofContent?,
    Text.run, opensQuote, isQuoted, isBreak, isIndent, backtick]

theorem itemMark?_codeItem {marker : Option ListMarker}
    (h : marker.all (· == .bullet '*') = true) :
    itemMark? .outermost marker (codeItem n body) = some (itemStar body) := by
  have hmark : ItemMark.ofContent? (codeItem n body).content = some (itemStar body) := rfl
  rw [itemMark?, isOutside_codeItem, isCode_codeItem, interruptsList_codeItem, hmark]
  simp only [Bool.or_false, Bool.false_eq_true, if_false, Option.filter_some, itemStar, h, if_true]

theorem inside_codeItem : (itemStar body).inside (codeItem n body) = shownItem n body := rfl

theorem frame_codeItem : (itemStar body).frame .outermost (codeItem n body) = itemFrame := rfl

theorem isText_shownItem (h : IsItemBody body) : (shownItem n body).IsText itemFrame where
  inside := rfl
  notCode := rfl
  noBar := by
    have hbar : ('|' : Char) ≠ backtick := by decide
    simp [shownItem, h.noBar, hbar]
  noFence := by
    have hrun : Text.run backtick (backtick :: body) = 1 := by
      cases body with
      | nil => rfl
      | cons c body =>
        have hc : c ≠ backtick := fun hc => h.noTick (congrArg some hc)
        simp [Text.run, hc]
    simp [Fence.opening?, shownItem, Line.isCode, itemFrame, Fence.ofContent?, hrun]
  head := rfl

/-! ## What follows an item -/

theorem opensList_codeItem : opensList true itemFrame (codeItem n body) = true := rfl

/-- The next item ends the paragraph of an item. -/
theorem interruptsProse_codeItem (rest : List Line) :
    interruptsProse true itemFrame (codeItem n body) rest = true := by
  simp [interruptsProse, opensList_codeItem]

theorem continuation_codeItems : continuation true itemFrame (codeItems n bodies) = [] := by
  cases bodies with
  | nil => rfl
  | cons body bodies =>
    rw [codeItems, continuation, interruptsProse_codeItem]
    rfl

theorem underline?_codeItems : underline? itemFrame (codeItems n bodies) = none := by
  cases bodies with
  | nil => rfl
  | cons body bodies =>
    rw [codeItems, underline?, interruptsProse_codeItem]
    rfl

theorem blocksFrom_codeItems :
    blocksFrom quote list itemFrame 0 (codeItems n bodies) = .nothing := by
  cases bodies with
  | nil => rfl
  | cons body bodies => rfl

/-- **An item holds its own line** and none of the next ones. -/
theorem blocksFrom_shown (h : IsItemBody body) :
    blocksFrom quote list itemFrame 0 (shownItem n body :: codeItems (n + 1) bodies) =
      ⟨[.prose n (n + 1)], 1⟩ := by
  have htext := isText_shownItem (n := n) h
  have hplain : isHeading itemFrame (shownItem n body) = false := by
    simp [isHeading, shownItem, Text.run, backtick]
  rw [blocksFrom_block htext.notBlank htext.inside
    (htext.block_of_alone hplain underline?_codeItems continuation_codeItems)]
  simp only [Block.prose]
  rw [blocksFrom_codeItems]
  rfl

/-! ## Lists -/

theorem items_codeItems {marker : Option ListMarker}
    (hmarker : marker.all (· == .bullet '*') = true) (h : IsItemBody body) :
    items (fun f => blocksFrom quote list f 0) .outermost marker 0
        (codeItems n (body :: bodies)) =
      (items (fun f => blocksFrom quote list f 0) .outermost (some (.bullet '*')) 0
        (codeItems (n + 1) bodies)).afterLeaves [.prose n (n + 1)] := by
  have hitem : item (fun f => blocksFrom quote list f 0) .outermost (itemStar body)
      (codeItem n body) (codeItems (n + 1) bodies) = ⟨[.prose n (n + 1)], 1⟩ := by
    rw [item, inside_codeItem, frame_codeItem, blocksFrom_shown h]
    rfl
  rw [codeItems, items, itemMark?_codeItem hmarker]
  simp only [hitem]
  rfl

/-- **Every item is a leaf of prose.** -/
theorem prose_mem_items {marker : Option ListMarker}
    (hmarker : marker.all (· == .bullet '*') = true) (h : ∀ body ∈ bodies, IsItemBody body) :
    ∀ k < bodies.length, .prose (n + k) (n + k + 1) ∈
      (items (fun f => blocksFrom quote list f 0) .outermost marker 0
        (codeItems n bodies)).leaves := by
  induction bodies generalizing n marker with
  | nil => exact fun k hk => absurd hk (Nat.not_lt_zero k)
  | cons body bodies ih =>
    obtain ⟨hbody, hbodies⟩ := List.forall_mem_cons.1 h
    intro k hk
    rw [items_codeItems hmarker hbody]
    cases k with
    | zero => exact List.mem_append_left _ (List.mem_singleton_self _)
    | succ k =>
      refine List.mem_append_right _ ?_
      rw [Nat.add_comm k, ← Nat.add_assoc]
      exact ih rfl hbodies k (Nat.lt_of_succ_lt_succ hk)

theorem list?_codeItems (h : IsItemBody body) :
    list? (fun f => blocksFrom quote list f 0) .outermost (codeItem n body)
        (codeItems (n + 1) bodies) =
      some ⟨(items (fun f => blocksFrom quote list f 0) .outermost none 0
          (codeItems n (body :: bodies))).leaves,
        (items (fun f => blocksFrom quote list f 0) .outermost none 0
          (codeItems n (body :: bodies))).used - 1⟩ := by
  rw [list?, if_neg]
  · rfl
  · rw [← codeItems, items_codeItems rfl h]
    exact Nat.succ_ne_zero _

/-- **Every item of a list is a leaf of prose**, if nothing else stands in front. -/
theorem prose_mem_blocksFrom (h : ∀ body ∈ bodies, IsItemBody body) :
    ∀ k < bodies.length, .prose (n + k) (n + k + 1) ∈
      (blocksFrom quote (fun f => blocksFrom blocked list f 0) .outermost 0
        (codeItems n bodies)).leaves := by
  cases bodies with
  | nil => exact fun k hk => absurd hk (Nat.not_lt_zero k)
  | cons body bodies =>
    intro k hk
    have hbody := h body List.mem_cons_self
    have hbar : (codeItem n body).content.contains '|' = false := by
      simp [codeItem, hbody.noBar, backtick]
    rw [codeItems, blocksFrom_block rfl isOutside_codeItem
      (block_of_list? isCode_codeItem hbar interruptsList_codeItem (list?_codeItems hbody))]
    exact List.mem_append_left _ (prose_mem_items rfl h k hk)

end

end MentionCommands
