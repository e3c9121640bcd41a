/-
  Rules of Markdown that a block parser may keep to.

  Nothing is said of block parsers in general.  These are plain properties of one, and a result asks
  for those that it rests on.

  * `KeepsLines`: the tokens that may hold code name lines of the text, and each of them its own;
  * `IgnoresBreaks`: all line breaks are the same;
  * `ReadsFences`: a block of fenced code goes on through the first line that closes it
    (`closesFence`);
  * `ReadsItems`: each line of a list of one-line items is text of its own.

  The last two speak of what follows a `PlainFront`, whose lines are blocks of their own.
-/
import MentionCommands.Proofs.Code.Merged
import MentionCommands.Proofs.Text.Breaks

namespace MentionCommands

/-! ## Lines -/

/-- A run of so many backticks. -/
def ticks (n : Nat) : Text := List.replicate n backtick

/-- Whether a line closes code that a line of `n` backticks opens: at most three spaces stand in
    front of a run of backticks at least as long, and nothing but blanks behind it. -/
def closesFence (n : Nat) (line : Text) : Bool :=
  let body := line.withoutBreak
  let marks := body.drop (Text.run ' ' body)
  decide (Text.run ' ' body ≤ 3) && decide (n ≤ Text.run backtick marks) &&
    (marks.drop (Text.run backtick marks)).all isIndent

/-- A character that neither ends a line nor parts cells, and that Markdown takes as it is. -/
def isPlain (c : Char) : Bool := !isLineBreak c && c != '\x00' && c != '|'

theorem isLineBreak_of_isPlain {c : Char} (h : isPlain c = true) : isLineBreak c = false := by
  simp only [isPlain, Bool.and_eq_true, Bool.not_eq_true'] at h
  exact h.1.1

/-- The line of an item that starts with inline code. -/
def itemLine (body : Text) : Text := ' ' :: '*' :: ' ' :: backtick :: (body ++ ['\n'])

/-- Just one backtick opens the inline code of an item, and the item is one line of plain text. -/
structure IsItemBody (body : Text) : Prop where
  plain : ∀ c ∈ body, isPlain c = true
  noTick : body.head? ≠ some backtick

/-- Lines behind which a new block starts: blank lines, headings, and lines of prose that a blank
    line follows. -/
inductive PlainFront : List Text → Prop where
  | nil : PlainFront []
  /-- A blank line. -/
  | blank {front : List Text} (h : PlainFront front) : PlainFront (['\n'] :: front)
  /-- A heading. -/
  | heading {front : List Text} {level : Nat} {text : Text} (hlevel : 1 ≤ level ∧ level ≤ 6)
    (htext : ∀ c ∈ text, isPlain c = true) (h : PlainFront front) :
    PlainFront ((List.replicate level '#' ++ ' ' :: (text ++ ['\n'])) :: front)
  /-- A line that starts with a letter, with a blank line behind it. -/
  | prose {front : List Text} {c : Char} {text : Text} (hc : c.isAlpha = true)
    (htext : ∀ d ∈ text, isPlain d = true) (h : PlainFront front) :
    PlainFront ((c :: (text ++ ['\n'])) :: ['\n'] :: front)

/-! ## Lines that close a fence -/

section
variable {n : Nat} {line : Text} {c : Char}

theorem eq_backtick_of_mem_ticks (h : c ∈ ticks n) : c = backtick := List.eq_of_mem_replicate h

theorem ticks_ne_nil (h : 0 < n) : ticks n ≠ [] := by
  rw [ticks, Ne, List.replicate_eq_nil_iff]
  exact h.ne'

/-- A line that closes a fence is a run of backticks at least as long, with blanks around it. -/
theorem exists_of_closesFence (h : closesFence n line = true) :
    ∃ front m back, line.withoutBreak = front ++ (ticks m ++ back) ∧ n ≤ m ∧
      ∀ d ∈ front ++ back, isIndent d = true := by
  simp only [closesFence, Bool.and_eq_true, decide_eq_true_eq, List.all_eq_true] at h
  obtain ⟨⟨-, hn⟩, hback⟩ := h
  have hline := Text.replicate_run_append ' ' line.withoutBreak
  have hmarks :=
    Text.replicate_run_append backtick (line.withoutBreak.drop (Text.run ' ' line.withoutBreak))
  rw [← hmarks] at hline
  refine ⟨_, _, _, hline.symm, hn, fun d hd => ?_⟩
  rcases List.mem_append.1 hd with hd | hd
  · rw [List.eq_of_mem_replicate hd]
    rfl
  · exact hback d hd

theorem mem_of_closesFence (h : closesFence n line = true) (hc : c ∈ line.withoutBreak) :
    c = backtick ∨ isIndent c = true := by
  obtain ⟨front, m, back, hline, -, hblank⟩ := exists_of_closesFence h
  rw [hline, List.mem_append, List.mem_append] at hc
  rcases hc with hc | hc | hc
  · exact Or.inr (hblank c (List.mem_append_left _ hc))
  · exact Or.inl (eq_backtick_of_mem_ticks hc)
  · exact Or.inr (hblank c (List.mem_append_right _ hc))

/-- A line that closes a fence holds a run of backticks as long as the fence. -/
theorem isInfix_of_closesFence (h : closesFence n line = true) : ticks n <:+: line := by
  obtain ⟨front, m, back, hline, hn, -⟩ := exists_of_closesFence h
  obtain ⟨k, rfl⟩ := Nat.exists_eq_add_of_le hn
  have hbody : ticks n <:+: line.withoutBreak := by
    refine ⟨front, ticks k ++ back, ?_⟩
    rw [hline, ticks, ticks, ticks, List.replicate_add]
    simp only [List.append_assoc]
  exact hbody.trans (List.takeWhile_prefix _).isInfix

end

/-! ## Rules -/

namespace BlockParser

/-- **The tokens that may hold code name lines of the text**, and each of them its own. -/
def KeepsLines (parse : BlockParser) : Prop :=
  ∀ t tokens, parse t = some tokens → LinesApart t tokens

/-- **All line breaks are the same** to the parser. -/
def IgnoresBreaks (parse : BlockParser) : Prop := ∀ t : Text, parse t.withLineFeeds = parse t

/-- **Fenced code** starts on a line of three or more backticks and goes on through the first line
    that closes it. -/
def ReadsFences (parse : BlockParser) : Prop :=
  ∀ (t : Text) (tokens : List BlockToken) (n : Nat) (front body rest : List Text) (closing : Text),
    parse t = some tokens → PlainFront front → 3 ≤ n →
    t.lines = front ++ (ticks n ++ ['\n']) :: (body ++ closing :: rest) →
    (∀ line ∈ body, closesFence n line = false) → closesFence n closing = true →
    ⟨.fence, some (front.length, front.length + body.length + 2)⟩ ∈ tokens

/-- **Items of a list**: at the end of a text, each line that is an item is text of its own. -/
def ReadsItems (parse : BlockParser) : Prop :=
  ∀ (t : Text) (tokens : List BlockToken) (front bodies : List Text),
    parse t = some tokens → PlainFront front → (∀ body ∈ bodies, IsItemBody body) →
    t.lines = front ++ bodies.map itemLine →
    ∀ k < bodies.length, ⟨.inline, some (front.length + k, front.length + k + 1)⟩ ∈ tokens

end BlockParser

end MentionCommands
