/-
  The leaves of a Markdown text lie one behind the other.

  * `Numbered n ls`: the lines `ls` have the numbers from `n` on; the rules for quotes and lists
    hand on numbered lines, since they cut lines off and change their contents only;
  * `StackedLeaves lo hi leaves`: the leaves cover lines from `lo` up to `hi`, none is empty, and
    each ends before the next one starts;
  * `IsSound`: a reader uses no more lines than there are, and stacks its leaves on those that it
    uses; `blocks_isSound` shows it for all depths, by way of `Block.Fits` for a single block;
  * `stacked_leaves`: so the leaves of a text are stacked on its lines.
-/
import MentionCommands.Markdown.Structure
import MentionCommands.Proofs.Text.Lines
import MentionCommands.Proofs.Text.Stacked

namespace MentionCommands

/-! ## Numbered lines -/

/-- The lines have the numbers from `n` on. -/
def Numbered (n : Nat) : List Line → Prop
  | [] => True
  | l :: ls => l.number = n ∧ Numbered (n + 1) ls

theorem Numbered.of_isPrefix {n : Nat} {ls ls' : List Line} (h : ls <+: ls')
    (hn : Numbered n ls') : Numbered n ls := by
  induction ls generalizing n ls' with
  | nil => trivial
  | cons l ls ih =>
    obtain ⟨rest, rfl⟩ := h
    exact ⟨hn.1, ih ⟨rest, rfl⟩ hn.2⟩

/-- A line that ends in a break exists for block rules. -/
theorem isReal_ofRaw {raw : Text} (h : raw.isBroken = true) (n : Nat) :
    (Line.ofRaw n raw).isReal = true := by
  have : (Line.ofRaw n raw).isBroken = true := h
  rw [Line.isReal, this, Bool.true_or]

theorem numbered_filter_isReal {raws : List Text}
    (h : raws.IsChain fun line _ => line.isBroken = true) (n : Nat) :
    Numbered n ((raws.mapIdx fun i raw => Line.ofRaw (n + i) raw).filter Line.isReal) := by
  induction raws generalizing n with
  | nil => trivial
  | cons raw raws ih =>
    rw [List.isChain_cons] at h
    have hrest := ih h.2 (n + 1)
    rw [List.mapIdx_cons, List.filter_cons]
    simp only [Nat.add_zero, Nat.add_assoc, Nat.add_comm 1] at hrest ⊢
    cases raws with
    | nil => split
             · exact ⟨rfl, trivial⟩
             · trivial
    | cons raw' raws =>
      rw [if_pos (isReal_ofRaw (h.1 raw' rfl) n)]
      exact ⟨rfl, hrest⟩

/-- **The lines of a Markdown text are numbered** from its first line on. -/
theorem numbered_markdownLines (t : Text) : Numbered 0 (markdownLines t) := by
  have := numbered_filter_isReal (Text.isChain_isBroken_lines t) 0
  simp only [Nat.zero_add] at this
  exact this

theorem length_markdownLines_le (t : Text) : (markdownLines t).length ≤ t.lines.length := by
  have := (List.filter_sublist (p := Line.isReal) (l := t.lines.mapIdx Line.ofRaw)).length_le
  simpa [markdownLines] using this

/-! ## Stacked leaves -/

namespace Leaf

/-- The first line of a leaf. -/
def first : Leaf → Nat
  | fenced first _ | indented first _ | prose first _ => first
  | row number _ => number

/-- The line after the last one of a leaf. -/
def last : Leaf → Nat
  | fenced _ last | indented _ last | prose _ last => last
  | row number _ => number + 1

end Leaf

/-- The leaves cover lines from `lo` up to `hi`, one behind the other. -/
abbrev StackedLeaves (lo hi : Nat) (leaves : List Leaf) : Prop :=
  Stacked Leaf.first Leaf.last lo hi leaves

/-! ## Blocks and readers -/

/-- A block stacks its leaves on the line `n` and the lines that it covers of `room` more. -/
def Block.Fits (n room : Nat) (b : Block) : Prop :=
  StackedLeaves n (n + 1 + min b.extra room) b.leaves

/-- The leaves in `room` lines from `n` on, of which the first `covered` belong to the block
    before, are stacked on the other lines that are used. -/
structure Blocks.Fill (n covered room : Nat) (b : Blocks) : Prop where
  covered_le : min covered room ≤ b.used
  used_le : b.used ≤ room
  stacked : StackedLeaves (n + min covered room) (n + b.used) b.leaves

/-- A reader stacks its leaves on the lines that it uses. -/
def Reader.IsSound (r : Reader) : Prop :=
  ∀ f n ls, Numbered n ls → (r f ls).Fill n 0 ls.length

namespace Blocks

variable {n covered room : Nat} {b : Blocks}

theorem fill_nothing : Fill n 0 room nothing := ⟨by simp, Nat.zero_le _, .nil⟩

theorem Fill.afterLine (h : b.Fill (n + 1) covered room) :
    b.afterLine.Fill n (covered + 1) (room + 1) := by
  refine ⟨?_, Nat.succ_le_succ h.used_le, h.stacked.mono ?_ ?_⟩
  · have := h.covered_le
    simp only [Blocks.afterLine]
    omega
  · omega
  · simp only [Blocks.afterLine]
    omega

theorem Fill.of_covered (h : b.Fill n covered room) : b.Fill n 0 room :=
  ⟨by simp, h.used_le, h.stacked.mono (by omega) (Nat.le_refl _)⟩

theorem Fill.afterLeaves {found : List Leaf} {extra : Nat}
    (hfound : Block.Fits n room ⟨found, extra⟩) (h : b.Fill (n + 1) extra room) :
    (b.afterLeaves found).Fill n 0 (room + 1) := by
  refine ⟨by simp, Nat.succ_le_succ h.used_le, ?_⟩
  have hle := h.covered_le
  have := Stacked.append hfound h.stacked (by omega) (by simp only; omega)
  refine this.mono (by simp) ?_
  simp only [Blocks.afterLeaves]
  omega

end Blocks

/-! ### Leaf blocks -/

/-- A block of one leaf, which reaches no further than the block and the lines there are. -/
theorem fits_singleton {a : Leaf} {n k extra room : Nat} (hfirst : a.first = n)
    (hlast : a.last = n + 1 + k) (hextra : k ≤ extra) (hroom : k ≤ room) :
    Block.Fits n room ⟨[a], extra⟩ := by
  refine .singleton hfirst.ge (by omega) ?_
  simp only
  omega

theorem fits_silent (n extra room : Nat) : (Block.silent extra).Fits n room := .nil

theorem extent_le (fence : Fence) (f : Frame) (ls : List Line) :
    fence.extent f ls ≤ ls.length := by
  induction ls with
  | nil => exact Nat.le_refl 0
  | cons l ls ih =>
    simp only [Fence.extent, List.length_cons]
    split_ifs <;> omega

theorem indentedExtent_le (f : Frame) (ls : List Line) : indentedExtent f ls ≤ ls.length := by
  induction ls with
  | nil => exact Nat.le_refl 0
  | cons l ls ih =>
    simp only [indentedExtent, List.length_cons]
    split_ifs
    · split <;> omega
    · omega
    · omega

theorem length_continuation_le (b : Bool) (f : Frame) (ls : List Line) :
    (continuation b f ls).length ≤ ls.length := by
  induction ls with
  | nil => exact Nat.le_refl 0
  | cons l ls ih =>
    simp only [continuation]
    split_ifs
    · exact Nat.zero_le _
    · simpa using ih
    · exact Nat.zero_le _

theorem lt_length_of_underline? {f : Frame} {ls : List Line} {k : Nat}
    (h : underline? f ls = some k) : k < ls.length := by
  induction ls generalizing k with
  | nil => cases h
  | cons l ls ih =>
    simp only [underline?] at h
    split_ifs at h
    · cases h
      exact Nat.zero_lt_succ _
    · obtain ⟨j, hj, rfl⟩ := Option.map_eq_some_iff.1 h
      exact Nat.succ_lt_succ (ih hj)

theorem tableRows_isPrefix (f : Frame) (ends : Line → Bool) (ls : List Line) :
    tableRows f ends ls <+: ls := by
  induction ls with
  | nil => exact List.prefix_refl _
  | cons l ls ih =>
    simp only [tableRows]
    split
    · exact List.nil_prefix
    · exact (List.prefix_cons_inj l).2 ih

theorem stacked_rows {n : Nat} {ls : List Line} (h : Numbered n ls) (columns : Nat) :
    StackedLeaves n (n + ls.length) (ls.map fun l => .row l.number columns) := by
  induction ls generalizing n with
  | nil => exact .nil ..
  | cons l ls ih =>
    have hfirst : StackedLeaves n (n + 1) [.row l.number columns] :=
      .singleton h.1.ge (Nat.lt_succ_self _) (Nat.succ_le_succ h.1.le)
    have hrest := ih h.2
    rw [Nat.add_right_comm, Nat.add_assoc] at hrest
    exact hfirst.append hrest (by omega) (by simp)

variable {f : Frame} {l : Line} {rest : List Line}

theorem table?_fits {ends : Line → Bool} (h : Numbered (l.number + 1) rest) :
    ∀ b ∈ table? f ends l rest, b.Fits l.number rest.length := by
  intro b hb
  simp only [table?, Option.mem_def] at hb
  split at hb
  · rename_i hopens
    cases hb
    cases rest with
    | nil => cases hopens
    | cons dashes rest =>
      have hp := tableRows_isPrefix f ends rest
      have hrows := stacked_rows (h.2.of_isPrefix hp) (cells l.content).length
      have hle := hp.length_le
      have hfirst : StackedLeaves l.number (l.number + 2)
          [.row l.number (cells l.content).length] :=
        .singleton (Nat.le_refl _) (Nat.lt_succ_self _) (Nat.le_succ _)
      simp only [Block.Fits, List.tail_cons, List.map_cons, List.length_cons]
      exact hfirst.append (hrows.mono (Nat.le_refl _) (by omega)) (by omega) (by omega)
  · cases hb

theorem underlinedHeading?_fits :
    ∀ b ∈ underlinedHeading? f l rest, b.Fits l.number rest.length := by
  intro b hb
  obtain ⟨k, hk, rfl⟩ := Option.map_eq_some_iff.1 hb
  exact fits_singleton rfl rfl (Nat.le_succ k) (lt_length_of_underline? hk).le

theorem fencedCode?_fits : ∀ b ∈ fencedCode? f l rest, b.Fits l.number rest.length := by
  intro b hb
  obtain ⟨fence, -, rfl⟩ := Option.map_eq_some_iff.1 hb
  exact fits_singleton rfl rfl (Nat.le_refl _) (extent_le fence f rest)

theorem indentedCode?_fits : ∀ b ∈ indentedCode? f l rest, b.Fits l.number rest.length := by
  intro b hb
  simp only [indentedCode?, Option.mem_def] at hb
  split at hb <;> cases hb
  exact fits_singleton rfl rfl (Nat.le_refl _) (indentedExtent_le f rest)

theorem heading?_fits : ∀ b ∈ heading? f l, b.Fits l.number rest.length := by
  intro b hb
  simp only [heading?, Option.mem_def] at hb
  split at hb <;> cases hb
  exact fits_singleton (k := 0) rfl rfl (Nat.le_refl _) (Nat.zero_le _)

theorem paragraph_fits : (paragraph f l rest).Fits l.number rest.length :=
  fits_singleton rfl rfl (Nat.le_refl _) (length_continuation_le true f rest)

theorem thematicBreak?_fits : ∀ b ∈ thematicBreak? f l, b.Fits l.number rest.length := by
  intro b hb
  simp only [thematicBreak?, Option.mem_def] at hb
  split at hb <;> cases hb
  exact fits_silent ..

theorem definition?_fits {ls : List Line} :
    ∀ b ∈ definition? f l ls, b.Fits l.number rest.length := by
  intro b hb
  simp only [definition?, Option.mem_def] at hb
  split at hb
  · cases hb
  · obtain ⟨_, -, rfl⟩ := Option.map_eq_some_iff.1 hb
    exact fits_silent ..

theorem htmlBlock?_fits : ∀ b ∈ htmlBlock? f l rest, b.Fits l.number rest.length := by
  intro b hb
  obtain ⟨_, -, rfl⟩ := Option.map_eq_some_iff.1 hb
  exact fits_silent ..

/-! ### Quotes and lists -/

theorem number_unquote (l : Line) : l.unquote.number = l.number := by
  unfold Line.unquote
  dsimp only
  split
  · rfl
  · split_ifs <;> rfl

theorem numbered_quotedLines {n : Nat} {ls : List Line} (h : Numbered n ls) (f : Frame) (b : Bool) :
    Numbered n (quotedLines f b ls) := by
  induction ls generalizing n b with
  | nil => trivial
  | cons l ls ih =>
    simp only [quotedLines]
    split_ifs
    · trivial
    · exact ⟨(number_unquote l).trans h.1, ih h.2 _⟩
    · trivial
    · exact ⟨h.1, ih h.2 _⟩

theorem length_quotedLines_le (f : Frame) (b : Bool) (ls : List Line) :
    (quotedLines f b ls).length ≤ ls.length := by
  induction ls generalizing b with
  | nil => exact Nat.le_refl 0
  | cons l ls ih =>
    simp only [quotedLines]
    split_ifs
    · exact Nat.zero_le _
    · exact Nat.succ_le_succ (ih _)
    · exact Nat.zero_le _
    · exact Nat.succ_le_succ (ih _)

/-- The leaves of a container that starts on a line, as a block. -/
theorem Blocks.Fill.fits {n room : Nat} {b : Blocks} (h : b.Fill n 0 (room + 1)) :
    Block.Fits n room ⟨b.leaves, b.used - 1⟩ := by
  have := h.used_le
  exact h.stacked.mono (by simp) (by simp only; omega)

theorem quote?_fits {inner : Reader} (hi : inner.IsSound) (h : Numbered (l.number + 1) rest) :
    ∀ b ∈ quote? inner f l rest, b.Fits l.number rest.length := by
  intro b hb
  simp only [quote?, Option.mem_def] at hb
  split at hb <;> cases hb
  have hlen := length_quotedLines_le f l.unquote.isBlank rest
  have hfill := hi { f with indent := 0 } l.number
    (l.unquote :: quotedLines f l.unquote.isBlank rest)
    ⟨number_unquote l, numbered_quotedLines h f _⟩
  exact hfill.fits.mono (Nat.le_refl _) (by simp only; omega)

theorem item_fill {inner : Reader} (hi : inner.IsSound) (m : ItemMark)
    (h : Numbered (l.number + 1) rest) :
    (item inner f m l rest).Fill l.number 0 (rest.length + 1) := by
  unfold item
  split
  · exact ⟨by simp, Nat.min_le_right .., .nil⟩
  · exact hi (m.frame f l) l.number (m.inside l :: rest) ⟨rfl, h⟩

theorem items_fill {inner : Reader} (hi : inner.IsSound) (f : Frame) {n : Nat} {ls : List Line}
    (h : Numbered n ls) (marker : Option ListMarker) (covered : Nat) :
    (items inner f marker covered ls).Fill n covered ls.length := by
  induction ls generalizing n marker covered with
  | nil => exact ⟨by simp [items], Nat.zero_le _, .nil⟩
  | cons l ls ih =>
    obtain ⟨rfl, hrest⟩ := h
    cases covered with
    | succ covered => exact (ih hrest marker covered).afterLine
    | zero =>
      simp only [items]
      split
      · exact Blocks.fill_nothing
      · rename_i m _
        exact (ih hrest _ _).afterLeaves (item_fill hi m hrest).fits

theorem list?_fits {inner : Reader} (hi : inner.IsSound) (h : Numbered (l.number + 1) rest) :
    ∀ b ∈ list? inner f l rest, b.Fits l.number rest.length := by
  intro b hb
  simp only [list?, Option.mem_def] at hb
  split at hb <;> cases hb
  exact (items_fill hi f (show Numbered l.number (l :: rest) from ⟨rfl, h⟩) none 0).fits

/-! ### All blocks -/

theorem forall_mem_orElse {α : Type} {p : α → Prop} {o o' : Option α} (h : ∀ a ∈ o, p a)
    (h' : ∀ a ∈ o', p a) : ∀ a ∈ (o <|> o'), p a := by
  intro a ha
  rw [Option.mem_def, Option.orElse_eq_orElse, Option.orElse_eq_or] at ha
  rcases Option.or_eq_some_iff.1 ha with ha | ⟨-, ha⟩
  · exact h a ha
  · exact h' a ha

theorem getD_of_forall_mem {α : Type} {p : α → Prop} {o : Option α} {a : α} (h : ∀ b ∈ o, p b)
    (ha : p a) : p (o.getD a) := by
  cases o with
  | none => exact ha
  | some b => exact h b rfl

theorem block_fits {quote list : Reader} (hq : quote.IsSound) (hl : list.IsSound)
    (h : Numbered (l.number + 1) rest) : (block quote list f l rest).Fits l.number rest.length := by
  refine getD_of_forall_mem ?_ paragraph_fits
  exact forall_mem_orElse (table?_fits h) <| forall_mem_orElse indentedCode?_fits <|
    forall_mem_orElse fencedCode?_fits <| forall_mem_orElse (quote?_fits hq h) <|
    forall_mem_orElse thematicBreak?_fits <| forall_mem_orElse (list?_fits hl h) <|
    forall_mem_orElse definition?_fits <| forall_mem_orElse htmlBlock?_fits <|
    forall_mem_orElse heading?_fits underlinedHeading?_fits

theorem blocksFrom_fill {quote list : Reader} (hq : quote.IsSound) (hl : list.IsSound) (f : Frame)
    {n : Nat} {ls : List Line} (h : Numbered n ls) (covered : Nat) :
    (blocksFrom quote list f covered ls).Fill n covered ls.length := by
  induction ls generalizing n covered with
  | nil => exact ⟨by simp [blocksFrom], Nat.zero_le _, .nil⟩
  | cons l ls ih =>
    obtain ⟨rfl, hrest⟩ := h
    cases covered with
    | succ covered => exact (ih hrest covered).afterLine
    | zero =>
      simp only [blocksFrom]
      split_ifs
      · exact (ih hrest 0).afterLine.of_covered
      · exact Blocks.fill_nothing
      · exact (ih hrest _).afterLeaves (block_fits hq hl hrest)

theorem tooDeep_isSound : Reader.IsSound tooDeep := by
  intro f n ls h
  induction ls generalizing n with
  | nil => exact Blocks.fill_nothing
  | cons l ls ih =>
    simp only [tooDeep]
    split_ifs
    · exact (ih (n + 1) h.2).afterLine.of_covered
    · exact Blocks.fill_nothing
    · exact ⟨by simp, Nat.le_refl _, .nil⟩

theorem blocks_isSound : ∀ room, (blocks room).IsSound
  | 0 => tooDeep_isSound
  | 1 => fun f _ _ h => blocksFrom_fill tooDeep_isSound tooDeep_isSound f h 0
  | room + 2 => fun f _ _ h =>
    blocksFrom_fill (blocks_isSound (room + 1)) (blocks_isSound room) f h 0

/-- **The leaves of a text are stacked on its lines.** -/
theorem stacked_leaves (t : Text) : StackedLeaves 0 t.lines.length (leaves t) := by
  have h := blocks_isSound maxNesting .outermost 0 (markdownLines t) (numbered_markdownLines t)
  refine h.stacked.mono (by simp) ?_
  have := h.used_le.trans (length_markdownLines_le t)
  simpa using this

end MentionCommands
