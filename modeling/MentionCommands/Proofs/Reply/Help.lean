/-
  The help listing holds no mention outside code.

  * `IsHandle`: what the bot may be called; `Grammar.IsListed`: what usage and description of a
    grammar may hold if its help line is to be one item with one inline code;
  * `inline_mem_helpListing`: a parser that reads lists of one-line items takes the item of every
    grammar for text of its own;
  * `contains_of_isPrefix`: wherever the mark of the bot occurs, it lies in the inline code of an
    item, since `@` occurs nowhere else and no handle holds the backtick that closes the code;
  * `Session.helpListing_hidden`: so the listing triggers nothing.
-/
import MentionCommands.Reply
import MentionCommands.Proofs.Code.Parts
import MentionCommands.Proofs.Dispatch.Hidden
import MentionCommands.Proofs.Markdown.CommonMark

namespace MentionCommands

/-! ## Handles and help texts -/

/-- A character of a handle. -/
def isHandleChar (c : Char) : Bool := isAlphanumeric c || c == '-' || c == '_'

/-- All characters of a handle are letters, digits, hyphens and underscores. -/
def IsHandle (bot : Text) : Prop := ∀ c ∈ bot, isHandleChar c = true

/-- The help of a grammar is one line; its usage can be shown as inline code, and its description
    mentions nobody. -/
structure Grammar.IsListed (g : Grammar) : Prop where
  usage : ∀ c ∈ g.usage, isPlain c = true ∧ c ≠ backtick
  description : ∀ c ∈ g.description, isPlain c = true ∧ c ≠ '@'

theorem forall_isPlain_iff {t : Text} {d : Char} :
    t.all (fun c => isPlain c && c != d) = true ↔ ∀ c ∈ t, isPlain c = true ∧ c ≠ d := by
  simp

theorem isListed_of_mem_builtInGrammars : ∀ g ∈ builtInGrammars, g.IsListed := by
  intro g hg
  simp only [builtInGrammars, List.mem_cons, List.not_mem_nil, or_false] at hg
  rcases hg with rfl | rfl
  all_goals
    constructor
    · exact forall_isPlain_iff.1 (by decide +kernel)
    · exact forall_isPlain_iff.1 (by decide +kernel)

theorem isPlain_of_isHandleChar {c : Char} (h : isHandleChar c = true) :
    isPlain c = true ∧ c ≠ backtick ∧ c ≠ '@' := by
  refine ⟨?_, ?_, ?_⟩
  · simp only [isPlain, isLineBreak, Bool.and_eq_true, Bool.not_eq_true', Bool.or_eq_false_iff,
      beq_eq_false_iff_ne, bne_iff_ne]
    refine ⟨⟨⟨?_, ?_⟩, ?_⟩, ?_⟩ <;> rintro rfl <;> revert h <;> decide +kernel
  · rintro rfl
    revert h
    decide +kernel
  · rintro rfl
    revert h
    decide +kernel

/-! ## The lines of the listing -/

/-- What the item of a grammar shows as code: how a command is written, the mention included. -/
def Grammar.shown (g : Grammar) (bot : Text) : Text := marker bot ++ ' ' :: g.usage

/-- The item of a grammar, behind the backtick that opens its code. -/
def Grammar.itemBody (g : Grammar) (bot : Text) : Text :=
  g.shown bot ++ backtick :: ' ' :: '-' :: ' ' :: g.description

/-- The line of a grammar in the listing. -/
def Grammar.helpRow (g : Grammar) (bot : Text) : Text := g.help bot ++ ['\n']

/-- The text of the heading. -/
def helpTitle (bot : Text) : Text := "🤖 ".toList ++ bot ++ " Commands".toList

/-- The first line of the listing, without its break. -/
def helpHeading (bot : Text) : Text := List.replicate 3 '#' ++ ' ' :: helpTitle bot

/-- The line that introduces the items, without its break. -/
def helpIntro : Text := "Comment any of the commands below to trigger the bot:".toList

/-- The lines before the items. -/
def helpLead (bot : Text) : List Text :=
  [helpHeading bot ++ ['\n'], helpIntro ++ ['\n'], ['\n']]

section
variable {g : Grammar} {grammars : List Grammar} {bot : Text} {parse : BlockParser}
  {tokens : List BlockToken}

theorem length_helpLead (bot : Text) : (helpLead bot).length = 3 := rfl

theorem helpListing_eq (bot : Text) (grammars : List Grammar) :
    helpListing bot grammars = (helpLead bot).flatten ++ grammars.flatMap (·.helpRow bot) := by
  have hmarks : "### 🤖 ".toList = List.replicate 3 '#' ++ ' ' :: "🤖 ".toList := by decide +kernel
  have hheading : " Commands\n".toList = " Commands".toList ++ ['\n'] := by decide +kernel
  have hintro : "Comment any of the commands below to trigger the bot:\n\n".toList =
      helpIntro ++ ['\n', '\n'] := by decide +kernel
  -- by their equations, the texts would be evaluated
  delta helpListing helpLead helpHeading helpTitle Grammar.helpRow
  simp only [hmarks, hheading, hintro, List.flatten_cons, List.flatten_nil, List.append_assoc,
    List.cons_append, List.nil_append]

theorem help_eq (g : Grammar) (bot : Text) :
    g.help bot = ' ' :: '*' :: ' ' :: backtick :: g.itemBody bot := by
  have hstart : " * `@".toList = [' ', '*', ' ', backtick, '@'] := by decide +kernel
  have hend : "` - ".toList = [backtick, ' ', '-', ' '] := by decide +kernel
  delta Grammar.help helpLine
  simp only [hstart, hend, Grammar.itemBody, Grammar.shown, marker, List.append_assoc,
    List.cons_append, List.nil_append]

theorem isPlain_helpTitle (hbot : IsHandle bot) :
    ∀ c ∈ helpTitle bot, isPlain c = true ∧ c ≠ '@' := by
  have hends : ∀ c ∈ "🤖 ".toList ++ " Commands".toList, isPlain c = true ∧ c ≠ '@' :=
    forall_isPlain_iff.1 (by decide +kernel)
  intro c hc
  delta helpTitle at hc
  simp only [List.mem_append] at hc
  rcases hc with (hc | hc) | hc
  · exact hends c (List.mem_append_left _ hc)
  · obtain ⟨hlist, -, hat⟩ := isPlain_of_isHandleChar (hbot c hc)
    exact ⟨hlist, hat⟩
  · exact hends c (List.mem_append_right _ hc)

theorem isPlain_helpHeading (hbot : IsHandle bot) :
    ∀ c ∈ helpHeading bot, isPlain c = true ∧ c ≠ '@' := by
  intro c hc
  rcases List.mem_append.1 hc with hc | hc
  · rw [List.eq_of_mem_replicate hc]
    decide
  · rcases List.mem_cons.1 hc with rfl | hc
    · decide
    · exact isPlain_helpTitle hbot c hc

theorem isPlain_helpIntro : ∀ c ∈ helpIntro, isPlain c = true ∧ c ≠ '@' :=
  forall_isPlain_iff.1 (by decide +kernel)

theorem isPlain_shown (hbot : IsHandle bot) (hg : g.IsListed) :
    ∀ c ∈ g.shown bot, isPlain c = true ∧ c ≠ backtick := by
  intro c hc
  simp only [Grammar.shown, marker, List.mem_append, List.mem_cons] at hc
  rcases hc with (rfl | hc) | rfl | hc
  · decide
  · obtain ⟨hlist, htick, -⟩ := isPlain_of_isHandleChar (hbot c hc)
    exact ⟨hlist, htick⟩
  · decide
  · exact hg.usage c hc

theorem isPlain_itemBody (hbot : IsHandle bot) (hg : g.IsListed) :
    ∀ c ∈ g.itemBody bot, isPlain c = true := by
  intro c hc
  simp only [Grammar.itemBody, List.mem_append, List.mem_cons] at hc
  rcases hc with hc | rfl | rfl | rfl | rfl | hc
  case inl => exact (isPlain_shown hbot hg c hc).1
  case inr.inr.inr.inr.inr => exact (hg.description c hc).1
  all_goals decide

theorem isPlain_help (hbot : IsHandle bot) (hg : g.IsListed) :
    ∀ c ∈ g.help bot, isPlain c = true := by
  intro c hc
  simp only [help_eq, List.mem_cons] at hc
  rcases hc with rfl | rfl | rfl | rfl | hc
  case inr.inr.inr.inr => exact isPlain_itemBody hbot hg c hc
  all_goals decide

theorem isItemBody_itemBody (hbot : IsHandle bot) (hg : g.IsListed) :
    IsItemBody (g.itemBody bot) where
  plain := isPlain_itemBody hbot hg
  noTick := by simp [Grammar.itemBody, Grammar.shown, marker, backtick]

theorem helpRow_eq_itemLine (g : Grammar) (bot : Text) :
    g.helpRow bot = itemLine (g.itemBody bot) := by
  rw [Grammar.helpRow, help_eq, itemLine]
  rfl

/-- The lines of the rows. -/
theorem lines_rows (hbot : IsHandle bot) (hgs : ∀ g ∈ grammars, g.IsListed) :
    Text.lines (grammars.flatMap (·.helpRow bot)) = grammars.map (·.helpRow bot) := by
  induction grammars with
  | nil => rfl
  | cons g grammars ih =>
    obtain ⟨hg, hgs⟩ := List.forall_mem_cons.1 hgs
    rw [List.flatMap_cons, Grammar.helpRow, List.append_assoc, List.cons_append, List.nil_append,
      Text.lines_line fun c hc => isLineBreak_of_isPlain (isPlain_help hbot hg c hc), ih hgs]
    rfl

/-- **The lines of the listing**: three lines before the items, then one for each grammar. -/
theorem lines_helpListing (hbot : IsHandle bot) (hgs : ∀ g ∈ grammars, g.IsListed) :
    (helpListing bot grammars).lines = helpLead bot ++ grammars.map (·.helpRow bot) := by
  rw [helpListing_eq, helpLead]
  simp only [List.flatten_cons, List.flatten_nil, List.append_assoc, List.cons_append,
    List.nil_append]
  rw [Text.lines_line fun c hc => isLineBreak_of_isPlain (isPlain_helpHeading hbot c hc).1,
    Text.lines_line fun c hc => isLineBreak_of_isPlain (isPlain_helpIntro c hc).1,
    Text.lines_break, lines_rows hbot hgs]

/-! ## The items -/

/-- The lines before the items are blocks of their own. -/
theorem plainFront_helpLead (hbot : IsHandle bot) : PlainFront (helpLead bot) := by
  have hintro : ∃ c text, helpIntro = c :: text ∧ c.isAlpha = true :=
    ⟨'C', "omment any of the commands below to trigger the bot:".toList, by decide +kernel,
      by decide⟩
  obtain ⟨c, text, hintro, hc⟩ := hintro
  have hplain : ∀ d ∈ text, isPlain d = true := fun d hd =>
    (isPlain_helpIntro d (by rw [hintro]; exact List.mem_cons_of_mem c hd)).1
  have hheading := PlainFront.heading (show 1 ≤ 3 ∧ 3 ≤ 6 by decide)
    (fun c hc => (isPlain_helpTitle hbot c hc).1) (.prose hc hplain .nil)
  rw [helpLead, helpHeading, hintro]
  simpa only [List.append_assoc, List.cons_append] using hheading

/-- **The item of every grammar is text of its own.** -/
theorem inline_mem_helpListing (hitems : parse.ReadsItems) (hbot : IsHandle bot)
    (hgs : ∀ g ∈ grammars, g.IsListed)
    (hparse : parse (helpListing bot grammars) = some tokens) :
    ∀ k < grammars.length, ⟨.inline, some (3 + k, 3 + k + 1)⟩ ∈ tokens := by
  intro k hk
  have hbodies : ∀ body ∈ grammars.map (·.itemBody bot), IsItemBody body := by
    intro body hbody
    obtain ⟨g, hg, rfl⟩ := List.mem_map.1 hbody
    exact isItemBody_itemBody hbot (hgs g hg)
  have hlines : (helpListing bot grammars).lines =
      helpLead bot ++ (grammars.map (·.itemBody bot)).map itemLine := by
    rw [lines_helpListing hbot hgs, List.map_map]
    exact congrArg _ (List.map_congr_left fun g _ => helpRow_eq_itemLine g bot)
  have hmem := hitems _ _ (helpLead bot) _ hparse (plainFront_helpLead hbot) hbodies hlines k
    (by rwa [List.length_map])
  rwa [length_helpLead] at hmem

/-! ## The code of the items -/

/-- What stands in a row behind the backtick that closes the code. -/
def Grammar.helpTail (g : Grammar) : Text := ' ' :: '-' :: ' ' :: (g.description ++ ['\n'])

theorem helpRow_eq (g : Grammar) (bot : Text) :
    g.helpRow bot =
      ' ' :: '*' :: ' ' :: backtick :: (g.shown bot ++ backtick :: g.helpTail) := by
  rw [Grammar.helpRow, help_eq, Grammar.itemBody, Grammar.helpTail]
  simp only [List.append_assoc, List.cons_append]

/-- The code of a row. -/
theorem mem_inlineCode_helpRow (hbot : IsHandle bot) (hg : g.IsListed) (offset : Nat) :
    ⟨offset + 3, offset + 3 + 2 + (g.shown bot).length⟩ ∈ inlineCode offset (g.helpRow bot) := by
  have htick : backtick ∉ g.shown bot := fun h => (isPlain_shown hbot hg _ h).2 rfl
  have hne : g.shown bot ≠ [] := List.cons_ne_nil _ _
  have hpieces : pieces (g.helpRow bot) = .plain ' ' :: .plain '*' :: .plain ' ' ::
      .code 1 (g.shown bot) :: pieces g.helpTail := by
    rw [helpRow_eq, pieces_plain _ (by decide) (by decide), pieces_plain _ (by decide) (by decide),
      pieces_plain _ (by decide) (by decide),
      pieces_tick htick hne (by simp [Grammar.helpTail, backtick])]
  rw [inlineCode, hpieces]
  exact List.mem_cons_self

/-- Where the row of a grammar starts. -/
theorem lineOffset_helpListing (hbot : IsHandle bot) {front back : List Grammar}
    (hgs : ∀ g ∈ front ++ back, g.IsListed) :
    (helpListing bot (front ++ back)).lineOffset (3 + front.length) =
      (helpLead bot).flatten.length + (front.flatMap (·.helpRow bot)).length := by
  have hlines := lines_helpListing hbot hgs
  rw [List.map_append, ← List.append_assoc] at hlines
  have hoffset := Text.lineOffset_of_lines hlines
  rwa [List.length_append, List.length_map, List.flatten_append, List.length_append,
    ← List.flatMap_def] at hoffset

/-- The code of the item of a grammar. -/
theorem mem_spans_helpListing (hitems : parse.ReadsItems) (hbot : IsHandle bot)
    {front back : List Grammar} (hgs : ∀ g' ∈ front ++ g :: back, g'.IsListed)
    (hparse : parse (helpListing bot (front ++ g :: back)) = some tokens) {offset : Nat}
    (h : offset = (helpLead bot).flatten.length + (front.flatMap (·.helpRow bot)).length) :
    ⟨offset + 3, offset + 3 + 2 + (g.shown bot).length⟩ ∈
      (CodeIndex.ofTokens (helpListing bot (front ++ g :: back)) tokens).spans := by
  have hg : g.IsListed := hgs g (by simp)
  have hline : (helpListing bot (front ++ g :: back)).lines[3 + front.length]? =
      some (g.helpRow bot) := by
    rw [lines_helpListing hbot hgs, ← length_helpLead bot,
      List.getElem?_append_right (Nat.le_add_right ..), Nat.add_sub_cancel_left]
    simp
  refine CodeIndex.mem_spans_ofTokens.2
    ⟨_, inline_mem_helpListing hitems hbot hgs hparse front.length (by simp), ?_⟩
  rw [BlockToken.spans_inline, inlineCodeOf_line hline, lineOffset_helpListing hbot hgs, ← h]
  exact mem_inlineCode_helpRow hbot hg offset

/-! ## Marks in the listing -/

theorem exists_of_getElem?_flatMap {α β : Type} {f : α → List β} {l : List α} {i : Nat} {b : β}
    (h : (l.flatMap f)[i]? = some b) :
    ∃ front a back j, l = front ++ a :: back ∧ i = (front.flatMap f).length + j ∧
      (f a)[j]? = some b := by
  induction l generalizing i with
  | nil => cases h
  | cons a l ih =>
    rw [List.flatMap_cons] at h
    rcases Nat.lt_or_ge i (f a).length with hi | hi
    · rw [List.getElem?_append_left hi] at h
      exact ⟨[], a, l, i, rfl, (Nat.zero_add i).symm, h⟩
    · rw [List.getElem?_append_right hi] at h
      obtain ⟨front, a', back, j, rfl, hj, hget⟩ := ih h
      refine ⟨a :: front, a', back, j, rfl, ?_, hget⟩
      rw [List.flatMap_cons, List.length_append]
      omega

/-- A text that starts inside another one lies in it if it lacks the character behind that. -/
theorem isPrefix_of_not_mem {α : Type} {w t rest : List α} {c : α} (h : w <+: t ++ c :: rest)
    (hc : c ∉ w) : w <+: t := by
  rcases List.prefix_or_prefix_of_prefix h (List.prefix_append t (c :: rest)) with ht | ⟨u, rfl⟩
  · exact ht
  · rw [List.prefix_append_right_inj] at h
    cases u with
    | nil => exact (List.append_nil t).symm ▸ List.prefix_refl t
    | cons d u =>
      obtain ⟨rfl, -⟩ := List.cons_prefix_cons.1 h
      exact absurd (by simp) hc

theorem at_not_mem_helpLead (hbot : IsHandle bot) : '@' ∉ (helpLead bot).flatten := by
  intro h
  simp only [helpLead, List.flatten_cons, List.flatten_nil, List.mem_append, List.mem_singleton,
    List.not_mem_nil, or_false] at h
  rcases h with (h | h) | (h | h) | h
  · exact (isPlain_helpHeading hbot _ h).2 rfl
  · exact absurd h (by decide)
  · exact (isPlain_helpIntro _ h).2 rfl
  · exact absurd h (by decide)
  · exact absurd h (by decide)

theorem backtick_not_mem_marker (hbot : IsHandle bot) : backtick ∉ marker bot := by
  intro h
  rcases List.mem_cons.1 h with h | h
  · exact absurd h (by decide)
  · exact absurd rfl (isPlain_of_isHandleChar (hbot _ h)).2.1

theorem at_not_mem_helpTail (hg : g.IsListed) : '@' ∉ g.helpTail := by
  simp only [Grammar.helpTail, List.mem_cons, List.mem_append, List.not_mem_nil, or_false, not_or]
  exact ⟨by decide, by decide, by decide, fun h => (hg.description _ h).2 rfl, by decide⟩

/-- In the row of a grammar, `@` stands only in the code. -/
theorem exists_of_getElem?_helpRow (hg : g.IsListed) {j : Nat}
    (h : (g.helpRow bot)[j]? = some '@') : ∃ m, j = 4 + m ∧ m < (g.shown bot).length := by
  rw [helpRow_eq] at h
  match j, h with
  | 0, h | 1, h | 2, h | 3, h => exact absurd (Option.some.inj h) (by decide)
  | m + 4, h =>
    refine ⟨m, Nat.add_comm m 4, ?_⟩
    by_contra! hm
    have hbehind : (backtick :: g.helpTail)[m - (g.shown bot).length]? = some '@' := by
      rw [← List.getElem?_append_right hm]
      exact h
    rcases List.mem_cons.1 (List.mem_of_getElem? hbehind) with hat | hat
    · exact absurd hat (by decide)
    · exact at_not_mem_helpTail hg hat

/-- **Wherever the mark of the bot occurs in the listing**, be it a mention or not, it lies in the
    code of an item. -/
theorem contains_of_isPrefix (hitems : parse.ReadsItems) (hbot : IsHandle bot)
    (hgs : ∀ g ∈ grammars, g.IsListed) (hparse : parse (helpListing bot grammars) = some tokens)
    {i : Nat} (h : marker bot <+: (helpListing bot grammars).drop i) :
    (CodeIndex.ofTokens (helpListing bot grammars) tokens).Contains
      ⟨i, i + (marker bot).length⟩ := by
  have hat : (helpListing bot grammars)[i]? = some '@' := by
    obtain ⟨rest, hrest⟩ := h
    rw [← Nat.add_zero i, ← List.getElem?_drop, ← hrest]
    rfl
  -- the mark starts in a row
  have hlead : (helpLead bot).flatten.length ≤ i := by
    by_contra! hi
    rw [helpListing_eq, List.getElem?_append_left hi] at hat
    exact at_not_mem_helpLead hbot (List.mem_of_getElem? hat)
  rw [helpListing_eq, List.getElem?_append_right hlead] at hat
  obtain ⟨front, g, back, j, rfl, hi, hrow⟩ := exists_of_getElem?_flatMap hat
  have hg : g.IsListed := hgs g (by simp)
  obtain ⟨m, rfl, hm⟩ := exists_of_getElem?_helpRow hg hrow
  refine ⟨_, mem_spans_helpListing hitems hbot hgs hparse rfl, ?_, ?_⟩
  · simp only
    omega
  -- and ends before the backtick that closes the code
  · have hdrop : (helpListing bot (front ++ g :: back)).drop i =
        (g.shown bot).drop m ++
          backtick :: (g.helpTail ++ back.flatMap (·.helpRow bot)) := by
      have hsum : i = (helpLead bot).flatten.length +
          ((front.flatMap (·.helpRow bot)).length + (4 + m)) := by omega
      rw [hsum, helpListing_eq, List.flatMap_append, List.flatMap_cons, ← List.drop_drop,
        List.drop_left, ← List.drop_drop, List.drop_left, ← List.drop_drop, helpRow_eq]
      simp only [List.cons_append, List.append_assoc, List.drop_succ_cons, List.drop_zero]
      rw [List.drop_append_of_le_length hm.le]
    rw [hdrop] at h
    have hlen := (isPrefix_of_not_mem h (backtick_not_mem_marker hbot)).length_le
    rw [List.length_drop] at hlen
    simp only
    omega

end

/-! ## Dispatch -/

namespace Session

/-- **The help listing triggers nothing**, for a parser that reads lists as Markdown does.  Whatever
    letters, digits, hyphens and underscores make the name of the bot, each mark of it in the
    listing lies in code, and a run over the listing reports nothing. -/
theorem helpListing_hidden {parse : BlockParser} (hitems : parse.ReadsItems) {bot : Text}
    (hbot : ∀ c ∈ bot, isAlphanumeric c = true ∨ c = '-' ∨ c = '_') {tokens : List BlockToken}
    (hparse : parse (helpListing bot builtInGrammars) = some tokens) :
    (∀ i, marker bot <+: (helpListing bot builtInGrammars).drop i →
      (CodeIndex.ofTokens (helpListing bot builtInGrammars) tokens).Contains
        ⟨i, i + (marker bot).length⟩) ∧
    (ofTokens (helpListing bot builtInGrammars) tokens bot builtInGrammars).results = some [] := by
  have hhandle : IsHandle bot := by
    intro c hc
    simpa [isHandleChar, or_assoc] using hbot c hc
  have hcontains (i : Nat) (h : marker bot <+: (helpListing bot builtInGrammars).drop i) :=
    contains_of_isPrefix hitems hhandle isListed_of_mem_builtInGrammars hparse h
  refine ⟨hcontains, results_of_isHidden fun i hi => ?_⟩
  obtain ⟨rest, hrest⟩ := hi.drop_eq
  obtain ⟨span, hspan, hstart, hstop⟩ := hcontains i (hrest ▸ List.prefix_append _ _)
  refine ⟨span, hspan, hstart, Nat.lt_of_lt_of_le ?_ hstop⟩
  simp [marker]

/-- A bot may have a name that the help itself mentions. -/
theorem helpListing_hidden_username :
    commonMark.ReadsItems ∧
    (∀ c ∈ "username".toList, isAlphanumeric c = true ∨ c = '-' ∨ c = '_') ∧
    ∃ tokens, commonMark (helpListing "username".toList builtInGrammars) = some tokens ∧
      (ofTokens (helpListing "username".toList builtInGrammars) tokens "username".toList
        builtInGrammars).results = some [] := by
  have hletters : "username".toList.all isAlphanumeric = true := by decide +kernel
  have hbot : ∀ c ∈ "username".toList, isAlphanumeric c = true ∨ c = '-' ∨ c = '_' :=
    fun c hc => Or.inl (List.all_eq_true.1 hletters c hc)
  obtain ⟨tokens, hparse⟩ : ∃ tokens,
    commonMark (helpListing "username".toList builtInGrammars) = some tokens := ⟨_, rfl⟩
  exact ⟨readsItems_commonMark, hbot, tokens, hparse,
    (helpListing_hidden readsItems_commonMark hbot hparse).2⟩

end Session

end MentionCommands
