/-
  Tokens, cut off by index.

  The loops here look the characters of a token up by their offsets.

  * `Source.skipBlanks?`, `Source.breaksEnd?`, `Source.quoteEnd?` and `Source.wordEnd?` are the
    loops; `token?` is the token at an offset, or the fault that keeps it from being cut off;
  * `token?_eq`: no look-up leaves the text, whatever the offset is, and the token is the one that
    `TokenStream.peek` finds.
-/
import MentionCommands.Proofs.Indexed.Code
import MentionCommands.Token.Stream

namespace MentionCommands.Indexed

/-! ## Loops -/

/-- The index behind the blanks at an index. -/
def Source.skipBlanks? (t : Source) (index : Nat) : Option Nat := do
  if index < t.length then
    let c ← t[index]?
    if isBlank c then t |>.skipBlanks? (index + 1)
    else return index
  else return index
partial_fixpoint

/-- The index behind the last line break of the white space at an index, or `stop` without one. -/
def Source.breaksEnd? (t : Source) (stop index : Nat) : Option Nat := do
  if index < t.length then
    let c ← t[index]?
    if isSpace c then
      t |>.breaksEnd? (if isLineBreak c then index + 1 else stop) (index + 1)
    else return stop
  else return stop
partial_fixpoint

/-- The index behind the closing double quote, if there is one. -/
def Source.quoteEnd? (t : Source) (index : Nat) : Option (Option Nat) := do
  if index < t.length then
    let c ← t[index]?
    if c = '\\' then t |>.quoteEnd? (index + 2)
    else if c = '"' then return some (index + 1)
    else t |>.quoteEnd? (index + 1)
  else return none
partial_fixpoint

/-- Whether a punctuation mark in front of an index ends a word. -/
def endsWord? (t : Text) (index : Nat) : Option Bool := do
  if index < t.length then
    let c ← t[index]?
    return isSpace c || isPunctuation c
  else return true

/-- The end of the word at an index, or the index of the double quote in it. -/
def Source.wordEnd? (t : Source) (index : Nat) : Option (Except Nat Nat) := do
  if index < t.length then
    let c ← t[index]?
    if isSpace c then return .ok index
    else if c = '"' then return .error index
    else
      let ends ← if isPunctuation c then endsWord? t (index + 1) else pure false
      if ends then return .ok index else t |>.wordEnd? (index + 1)
  else return .ok index
partial_fixpoint

/-- The token at an offset, none at the end of the text, or the fault that stands there. -/
def token? (t : Source) (offset : Nat) : Option (Except Diagnostic (Option Token)) := do
  let start ← t.skipBlanks? offset
  if start < t.length then
    let c ← t[start]?
    if isLineBreak c then
      let stop ← t.breaksEnd? start start
      return .ok (some ⟨.endOfLine, start, t.slice start stop⟩)
    else
      match punctuation? c with
      | some kind => return .ok (some ⟨kind, start, t.slice start (start + 1)⟩)
      | none =>
        if c = '"' then
          match ← t.quoteEnd? (start + 1) with
          | some stop => return .ok (some ⟨.quote, start, t.slice start stop⟩)
          | none => return .error (.ofLexFault .unterminatedString t start)
        else
          match ← t.wordEnd? start with
          | .ok stop => return .ok (some ⟨.word, start, t.slice start stop⟩)
          | .error index => return .error (.ofLexFault .quoteInWord t index)
  else return .ok none

/-! ## Tails -/

section
variable {t : Text}

theorem slice_length_eq_drop (t : Text) (index : Nat) : t.slice index t.length = t.drop index :=
  List.take_of_length_le (by rw [List.length_drop])

/-- **Induction on a tail of a text**: it is empty, or it starts with the character at its index. -/
theorem tail_induction {motive : Nat → Text → Prop}
    (nil : ∀ index, ¬ index < t.length → motive index [])
    (cons : ∀ index c, index < t.length → t[index]? = some c →
      t.drop index = c :: t.drop (index + 1) →
      (∀ j, index < j → motive j (t.drop j)) → motive index (t.drop index))
    (index : Nat) : motive index (t.drop index) := by
  simp only [← slice_length_eq_drop] at cons ⊢
  exact window_induction (Nat.le_refl _) nil cons index

theorem slice_of_isPrefix {taken : Text} {start : Nat} (h : taken <+: t.drop start) :
    t.slice start (start + taken.length) = taken := by
  rw [Text.slice, Nat.add_sub_cancel_left]
  exact (List.prefix_iff_eq_take.1 h).symm

/-! ## Scans -/

theorem breaksEnd?_eq (stop index : Nat) :
    Source.breaksEnd? t stop index = some (if takeBreaks (t.drop index) = [] then stop
      else index + (takeBreaks (t.drop index)).length) := by
  refine tail_induction (motive := fun index u => ∀ stop, Source.breaksEnd? t stop index =
    some (if takeBreaks u = [] then stop else index + (takeBreaks u).length)) ?_ ?_ index stop
  · intro index hi stop
    rw [Source.breaksEnd?, if_neg hi]
    rfl
  · intro index c hi hget hdrop ih stop
    rw [Source.breaksEnd?, if_pos hi, hget, hdrop, takeBreaks.eq_def]
    by_cases hs : isSpace c = true
    · have hnext := ih (index + 1) (Nat.lt_succ_self index)
      simp only [hs, if_true, Option.bind_eq_bind, Option.bind_some, hnext]
      cases takeBreaks (t.drop (index + 1)) with
      | nil => cases isLineBreak c <;> rfl
      | cons d taken => simp [Nat.add_assoc, Nat.add_comm 1]
    · simp [hs]

theorem quoteEnd?_eq (index : Nat) :
    Source.quoteEnd? t index = some ((takeQuote? (t.drop index)).map (index + ·.length)) := by
  refine tail_induction (motive := fun index u =>
    Source.quoteEnd? t index = some ((takeQuote? u).map (index + ·.length))) ?_ ?_ index
  · intro index hi
    rw [Source.quoteEnd?, if_neg hi]
    rfl
  · intro index c hi hget hdrop ih
    rw [Source.quoteEnd?, if_pos hi, hget, hdrop, takeQuote?.eq_def]
    simp only [Option.bind_eq_bind, Option.bind_some]
    by_cases hq : c = '"'
    · subst hq
      rfl
    · rw [if_neg hq, if_neg hq]
      by_cases hs : c = '\\'
      · have hnext := ih (index + 2) (by omega)
        have htail : t.drop (index + 2) = (t.drop (index + 1)).tail := by rw [List.tail_drop]
        rw [htail] at hnext
        rw [if_pos hs, if_pos hs, hnext]
        cases t.drop (index + 1) with
        | nil => rfl
        | cons d rest => simp [Option.map_map, Function.comp_def, Nat.add_assoc, Nat.add_comm 2]
      · rw [if_neg hs, if_neg hs, ih (index + 1) (Nat.lt_succ_self index)]
        simp [Option.map_map, Function.comp_def, Nat.add_assoc, Nat.add_comm 1]

theorem endsWord?_eq (index : Nat) : endsWord? t index = some (endsWord (t.drop index)) := by
  refine tail_induction (motive := fun index u => endsWord? t index = some (endsWord u)) ?_ ?_ index
  · intro index hi
    rw [endsWord?, if_neg hi]
    rfl
  · intro index c hi hget hdrop _
    rw [endsWord?, if_pos hi, hget, hdrop]
    rfl

theorem wordEnd?_eq (index : Nat) :
    Source.wordEnd? t index = some (match takeWord (t.drop index) with
      | .ok taken => .ok (index + taken.length)
      | .error offset => .error (index + offset)) := by
  refine tail_induction (motive := fun index u =>
    Source.wordEnd? t index = some (match takeWord u with
      | .ok taken => .ok (index + taken.length)
      | .error offset => .error (index + offset))) ?_ ?_ index
  · intro index hi
    rw [Source.wordEnd?, if_neg hi]
    rfl
  · intro index c hi hget hdrop ih
    rw [Source.wordEnd?, if_pos hi, hget, hdrop, takeWord]
    simp only [Option.bind_eq_bind, Option.bind_some, endsWord?_eq]
    by_cases hs : isSpace c = true
    · rw [if_pos hs, if_pos hs]
      rfl
    · rw [if_neg hs, if_neg hs]
      by_cases hq : c = '"'
      · rw [if_pos hq, if_pos hq]
        rfl
      · have hgo : Source.wordEnd? t (index + 1) =
            some (match (match takeWord (t.drop (index + 1)) with
            | .ok taken => .ok (c :: taken)
            | .error offset => .error (offset + 1) : Except Nat Text) with
            | .ok taken => .ok (index + taken.length)
            | .error offset => .error (index + offset)) := by
          rw [ih (index + 1) (Nat.lt_succ_self index)]
          cases takeWord (t.drop (index + 1)) with
          | ok taken => simp [Nat.add_assoc, Nat.add_comm 1]
          | error offset => simp [Nat.add_assoc, Nat.add_comm 1]
        rw [if_neg hq, if_neg hq]
        cases isPunctuation c with
        | false => exact hgo
        | true =>
          cases endsWord (t.drop (index + 1)) with
          | true => rfl
          | false => exact hgo

/-! ## Tokens -/

theorem takeBreaks_ne_nil {c : Char} (hc : isLineBreak c = true) (u : Text) :
    takeBreaks (c :: u) ≠ [] := by
  simp only [takeBreaks, isSpace_of_isLineBreak hc, hc, if_true]
  split <;> simp

/-- A lexeme at an offset, as a stream reports it. -/
def ofLexeme (t : Text) (offset : Nat) : Lexeme → Except Diagnostic (Option Token)
  | .finished => .ok none
  | .fault reason behind => .error (.ofLexFault reason t (offset + behind))
  | .token k => .ok (some (k.shift offset))

theorem ofLexeme_afterBlank (offset : Nat) (l : Lexeme) :
    ofLexeme t offset l.afterBlank = ofLexeme t (offset + 1) l := by
  cases l with
  | finished => rfl
  | fault => simp [Lexeme.afterBlank, ofLexeme, Nat.add_assoc]
  | token k => simp [Lexeme.afterBlank, ofLexeme, Token.shift, Nat.add_assoc]

theorem token?_of_end {offset : Nat} (h : ¬ offset < t.length) :
    token? t offset = some (.ok none) := by
  simp [token?, Source.skipBlanks?, h]

theorem token?_of_blank {offset : Nat} {c : Char} (h : offset < t.length)
    (hget : t[offset]? = some c) (hc : isBlank c = true) :
    token? t offset = token? t (offset + 1) := by
  rw [token?, token?, Source.skipBlanks?, if_pos h, hget]
  simp only [Option.bind_eq_bind, Option.bind_some, hc, if_true]

theorem skipBlanks?_of_not_blank {offset : Nat} {c : Char} (h : offset < t.length)
    (hget : t[offset]? = some c) (hc : ¬ isBlank c = true) :
    Source.skipBlanks? t offset = some offset := by
  rw [Source.skipBlanks?, if_pos h, hget]
  simp [hc]

/-- A token that starts with a line break ends behind the last one of its white space. -/
theorem breaksEnd?_of_isLineBreak {offset : Nat} {c : Char} (hc : isLineBreak c = true)
    (hdrop : t.drop offset = c :: t.drop (offset + 1)) :
    ∃ stop, Source.breaksEnd? t offset offset = some stop ∧
      t.slice offset stop = takeBreaks (c :: t.drop (offset + 1)) := by
  have htaken : takeBreaks (t.drop offset) ≠ [] := by
    rw [hdrop]
    exact takeBreaks_ne_nil hc _
  rw [breaksEnd?_eq, if_neg htaken]
  refine ⟨_, rfl, ?_⟩
  rw [slice_of_isPrefix (takeBreaks_isPrefix (t.drop offset)), hdrop]

theorem slice_mark {offset : Nat} {c : Char} (hdrop : t.drop offset = c :: t.drop (offset + 1)) :
    t.slice offset (offset + 1) = [c] := by
  have hprefix : [c] <+: t.drop offset := by
    rw [hdrop]
    simp
  exact slice_of_isPrefix hprefix

theorem slice_quote {offset : Nat} {c : Char} {taken : Text}
    (hdrop : t.drop offset = c :: t.drop (offset + 1))
    (htaken : takeQuote? (t.drop (offset + 1)) = some taken) :
    t.slice offset (offset + 1 + taken.length) = c :: taken := by
  have hprefix : c :: taken <+: t.drop offset := by
    rw [hdrop]
    exact (List.prefix_cons_inj c).2 (isPrefix_of_takeQuote? htaken)
  have hslice := slice_of_isPrefix hprefix
  rwa [List.length_cons, Nat.add_comm taken.length, ← Nat.add_assoc] at hslice

theorem token?_eq_ofLexeme (offset : Nat) :
    token? t offset = some (ofLexeme t offset (Lexeme.ofText (t.drop offset))) := by
  refine tail_induction (motive := fun offset u =>
    token? t offset = some (ofLexeme t offset (Lexeme.ofText u))) ?_ ?_ offset
  · intro offset h
    exact token?_of_end h
  · intro offset c h hget hdrop ih
    by_cases hblank : isBlank c = true
    · rw [token?_of_blank h hget hblank, hdrop, Lexeme.ofText, if_pos hblank, ofLexeme_afterBlank]
      exact ih (offset + 1) (Nat.lt_succ_self offset)
    · rw [hdrop, Lexeme.ofText, if_neg hblank, token?, skipBlanks?_of_not_blank h hget hblank]
      simp only [Option.bind_eq_bind, Option.bind_some, if_pos h, hget]
      by_cases hbreak : isLineBreak c = true
      · obtain ⟨stop, hstop, hslice⟩ := breaksEnd?_of_isLineBreak hbreak hdrop
        rw [if_pos hbreak, if_pos hbreak, hstop, Option.bind_some, hslice]
        rfl
      · rw [if_neg hbreak, if_neg hbreak]
        cases hp : punctuation? c with
        | some kind =>
          simp only [slice_mark hdrop]
          rfl
        | none =>
          by_cases hq : c = '"'
          · simp only [if_pos hq, quoteEnd?_eq, Option.bind_some]
            cases htaken : takeQuote? (t.drop (offset + 1)) with
            | none => rfl
            | some taken =>
              simp only [Option.map_some, slice_quote hdrop htaken]
              rfl
          · simp only [if_neg hq, wordEnd?_eq, Option.bind_some, ← hdrop]
            cases htaken : takeWord (t.drop offset) with
            | error behind => rfl
            | ok taken =>
              simp only [slice_of_isPrefix (isPrefix_of_takeWord htaken)]
              rfl

/-- **No look-up of a token leaves the text**, whatever the offset is, and the token is the one that
    a stream finds. -/
theorem token?_eq (s : TokenStream) : token? s.text s.position = some s.peek := by
  rw [token?_eq_ofLexeme, TokenStream.peek, TokenStream.next, TokenStream.remaining]
  cases Lexeme.ofText (s.text.drop s.position) <;> rfl

end

end MentionCommands.Indexed
