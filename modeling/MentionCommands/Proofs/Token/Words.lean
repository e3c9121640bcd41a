/-
  Texts that are cut off as one token, and what stands behind them.

  * `WordSafe`: a text that goes into a word as a whole;
  * `takeWord_eq_nil_iff`: where words end; `takeWord_append_iff`: only safe texts are words;
  * `takeQuote?_quote`, `takeQuote?_backslash` and `takeQuote?_cons`: where quoted texts close;
  * `Lexeme.ofText_word`, `ofText_mark` and `ofText_quote`: what is cut off in front of any text
    before which a word ends;
  * `Tokens.ofText_mark` and `ofText_blank`: the tokens of such a text and of what follows.
-/
import Mathlib.Data.List.Basic
import MentionCommands.Token.Stream

namespace MentionCommands

/-- A text that goes into a word as a whole: it has no white space and no double quote, and none of
    its punctuation marks stands at its end or in front of another one. -/
structure WordSafe (w : Text) : Prop where
  ne_nil : w ≠ []
  noSpace : ∀ c ∈ w, isSpace c = false
  noQuote : '"' ∉ w
  parted : w.IsChain fun c d => isPunctuation c = true → isPunctuation d = false
  unmarked : ∀ c ∈ w.getLast?, isPunctuation c = false

theorem wordSafe_iff (w : Text) :
    (w ≠ [] ∧ w.all (fun c => !isSpace c) = true ∧ '"' ∉ w ∧
      w.IsChain (fun c d => isPunctuation c = true → isPunctuation d = false) ∧
      w.getLast?.all (fun c => !isPunctuation c) = true) ↔ WordSafe w := by
  simp only [List.all_eq_true, Option.all_eq_true, Bool.not_eq_true']
  constructor
  · rintro ⟨hne, hspace, hquote, hparted, hunmarked⟩
    exact ⟨hne, hspace, hquote, hparted, hunmarked⟩
  · rintro ⟨hne, hspace, hquote, hparted, hunmarked⟩
    exact ⟨hne, hspace, hquote, hparted, hunmarked⟩

instance (w : Text) : Decidable (WordSafe w) := decidable_of_iff _ (wordSafe_iff w)

namespace WordSafe

variable {c d : Char} {w : Text}

theorem head (h : WordSafe (c :: w)) : isSpace c = false ∧ c ≠ '"' := by
  refine ⟨h.noSpace c List.mem_cons_self, ?_⟩
  rintro rfl
  exact h.noQuote List.mem_cons_self

/-- A mark may stand in front of a character that is none. -/
theorem cons_of_parted (hspace : isSpace c = false) (hquote : c ≠ '"')
    (hparted : isPunctuation c = true → isPunctuation d = false) (h : WordSafe (d :: w)) :
    WordSafe (c :: d :: w) where
  ne_nil := List.cons_ne_nil c (d :: w)
  noSpace := List.forall_mem_cons.2 ⟨hspace, h.noSpace⟩
  noQuote := List.not_mem_cons_of_ne_of_not_mem hquote.symm h.noQuote
  parted := List.isChain_cons_cons.2 ⟨hparted, h.parted⟩
  unmarked := by
    rw [List.getLast?_cons_cons]
    exact h.unmarked

/-- A character that is no mark may stand in front. -/
theorem cons (hspace : isSpace c = false) (hquote : c ≠ '"') (hmark : isPunctuation c = false)
    (h : WordSafe w) : WordSafe (c :: w) := by
  obtain ⟨d, w, rfl⟩ := List.exists_cons_of_ne_nil h.ne_nil
  refine h.cons_of_parted hspace hquote fun hc => ?_
  rw [hmark] at hc
  cases hc

theorem tail (h : WordSafe (c :: d :: w)) : WordSafe (d :: w) where
  ne_nil := List.cons_ne_nil d w
  noSpace := (List.forall_mem_cons.1 h.noSpace).2
  noQuote := List.not_mem_of_not_mem_cons h.noQuote
  parted := (List.isChain_cons_cons.1 h.parted).2
  unmarked := by
    rw [← List.getLast?_cons_cons]
    exact h.unmarked

end WordSafe

/-! ## Where words end -/

theorem takeWord_space {c : Char} (h : isSpace c = true) (rest : Text) :
    takeWord (c :: rest) = .ok [] := by
  rw [takeWord, if_pos h]

/-- A word ends before a mark with white space behind it. -/
theorem takeWord_mark {c d : Char} (hc : isPunctuation c = true) (hd : isSpace d = true)
    (rest : Text) : takeWord (c :: d :: rest) = .ok [] := by
  have hquote : c ≠ '"' := by
    rintro rfl
    cases hc
  by_cases hspace : isSpace c = true
  · exact takeWord_space hspace _
  · rw [takeWord, if_neg hspace, if_neg hquote, if_pos]
    simp [endsWord, hc, hd]

/-- **A safe text is taken as a whole**, if a word ends behind it. -/
theorem takeWord_append {w rest : Text} (h : WordSafe w) (hrest : takeWord rest = .ok []) :
    takeWord (w ++ rest) = .ok w := by
  induction w with
  | nil => exact absurd rfl h.ne_nil
  | cons c w ih =>
    obtain ⟨hplain, hquote⟩ := h.head
    have hspace : ¬ isSpace c = true := by simp [hplain]
    cases w with
    | nil =>
      have hmark : isPunctuation c = false := h.unmarked c rfl
      rw [List.singleton_append, takeWord, if_neg hspace, if_neg hquote, hmark, Bool.false_and,
        if_neg Bool.false_ne_true, hrest]
    | cons d w =>
      have hends : ¬ (isPunctuation c && endsWord (d :: w ++ rest)) = true := by
        intro hends
        obtain ⟨hc, hd⟩ := Bool.and_eq_true_iff.1 hends
        have hmark := (List.isChain_cons_cons.1 h.parted).1 hc
        simp [endsWord, hmark, h.tail.head.1] at hd
      rw [List.cons_append, takeWord, if_neg hspace, if_neg hquote, if_neg hends, ih h.tail]

/-- A word ends before white space, before a mark behind which no word goes on, and at the end. -/
theorem takeWord_eq_nil_iff {t : Text} :
    takeWord t = .ok [] ↔ ∀ c, t[0]? = some c →
      isSpace c = true ∨ isPunctuation c = true ∧ endsWord t.tail = true := by
  cases t with
  | nil => simp [takeWord]
  | cons c rest =>
    simp only [List.getElem?_cons_zero, Option.some.injEq, forall_eq', List.tail_cons]
    constructor
    · intro h
      simp only [takeWord] at h
      split at h
      · rename_i hspace
        exact Or.inl hspace
      split at h
      · cases h
      split at h
      · rename_i hmark
        exact Or.inr (Bool.and_eq_true_iff.1 hmark)
      · split at h <;> cases h
    · rintro (hspace | ⟨hc, hends⟩)
      · exact takeWord_space hspace rest
      · have hquote : c ≠ '"' := by
          rintro rfl
          cases hc
        by_cases hspace : isSpace c = true
        · exact takeWord_space hspace rest
        · rw [takeWord, if_neg hspace, if_neg hquote, if_pos (Bool.and_eq_true_iff.2 ⟨hc, hends⟩)]

theorem endsWord_iff {t : Text} :
    endsWord t = true ↔ ∀ c, t[0]? = some c → isSpace c = true ∨ isPunctuation c = true := by
  cases t with
  | nil => simp [endsWord]
  | cons c rest => simp [endsWord]

/-- No word goes on at an offset. -/
theorem takeWord_drop_eq_nil_iff {t : Text} {k : Nat} :
    takeWord (t.drop k) = .ok [] ↔ ∀ c, t[k]? = some c →
      isSpace c = true ∨ isPunctuation c = true ∧
        ∀ d, t[k + 1]? = some d → isSpace d = true ∨ isPunctuation d = true := by
  simp only [takeWord_eq_nil_iff, endsWord_iff, List.tail_drop, List.getElem?_drop, Nat.add_zero]

/-- Where no word stands next, a mark in front ends one. -/
theorem endsWord_of_takeWord {t : Text} (h : takeWord t = .ok []) : endsWord t = true :=
  endsWord_iff.2 fun c hc => (takeWord_eq_nil_iff.1 h c hc).imp_right And.left

/-- What stands in front of a word that goes on. -/
theorem takeWord_cons {c : Char} {t w : Text} (h : takeWord (c :: t) = .ok (c :: w)) :
    isSpace c = false ∧ c ≠ '"' ∧ (isPunctuation c = true → endsWord t = false) ∧
      takeWord t = .ok w := by
  simp only [takeWord] at h
  split at h
  · cases h
  rename_i hspace
  split at h
  · cases h
  rename_i hquote
  split at h
  · cases h
  rename_i hmark
  split at h
  · rename_i taken htaken
    cases h
    refine ⟨Bool.eq_false_iff.2 hspace, hquote, fun hc => Bool.eq_false_iff.2 fun hends => ?_,
      htaken⟩
    exact hmark (Bool.and_eq_true_iff.2 ⟨hc, hends⟩)
  · cases h

/-- **Only safe texts are words**, and only if a word ends behind them. -/
theorem takeWord_append_iff {w rest : Text} (hne : w ≠ []) :
    takeWord (w ++ rest) = .ok w ↔ WordSafe w ∧ takeWord rest = .ok [] := by
  refine ⟨fun h => ?_, fun h => takeWord_append h.1 h.2⟩
  induction w with
  | nil => exact absurd rfl hne
  | cons c w ih =>
    obtain ⟨hspace, hquote, hmark, htail⟩ := takeWord_cons h
    cases w with
    | nil =>
      have hplain : isPunctuation c = false :=
        Bool.eq_false_iff.2 fun hc => by
          have hends := hmark hc
          rw [endsWord_of_takeWord htail] at hends
          cases hends
      exact ⟨⟨hne, by simpa, by simpa using hquote.symm, .singleton c, by simpa⟩, htail⟩
    | cons d w =>
      obtain ⟨hsafe, hrest⟩ := ih (List.cons_ne_nil d w) htail
      have hparted (hc : isPunctuation c = true) : isPunctuation d = false :=
        (Bool.or_eq_false_iff.1 (hmark hc)).2
      exact ⟨hsafe.cons_of_parted hspace hquote hparted, hrest⟩

/-! ## Where quoted texts close -/

theorem takeQuote?_quote (rest : Text) : takeQuote? ('"' :: rest) = some ['"'] := by
  rw [takeQuote?.eq_def]
  rfl

/-- A backslash takes the next character along. -/
theorem takeQuote?_backslash (c : Char) (rest : Text) :
    takeQuote? ('\\' :: c :: rest) = (takeQuote? rest).map fun taken => '\\' :: c :: taken := by
  rw [takeQuote?.eq_def]
  rfl

theorem takeQuote?_cons {c : Char} (hquote : c ≠ '"') (hslash : c ≠ '\\') (rest : Text) :
    takeQuote? (c :: rest) = (takeQuote? rest).map (c :: ·) := by
  rw [takeQuote?.eq_def]
  simp only [if_neg hquote, if_neg hslash]

/-! ## What is cut off -/

namespace Lexeme

/-- **A safe text that starts with no mark is cut off as a word.** -/
theorem ofText_word {w rest : Text} (h : WordSafe w) (hmark : w.head?.bind punctuation? = none)
    (hrest : takeWord rest = .ok []) : ofText (w ++ rest) = .token ⟨.word, 0, w⟩ := by
  obtain ⟨c, w, rfl⟩ := List.exists_cons_of_ne_nil h.ne_nil
  obtain ⟨hspace, hquote⟩ := h.head
  have hblank : ¬ isBlank c = true := by simp [isBlank, hspace]
  have hbreak : ¬ isLineBreak c = true := by
    intro hbreak
    rw [isSpace_of_isLineBreak hbreak] at hspace
    cases hspace
  have htake := takeWord_append h hrest
  rw [List.head?_cons, Option.bind_some] at hmark
  rw [List.cons_append] at htake ⊢
  simp only [ofText, if_neg hblank, if_neg hbreak, hmark, if_neg hquote, htake]

theorem ofText_mark {c : Char} {kind : TokenKind} (h : punctuation? c = some kind) (rest : Text) :
    ofText (c :: rest) = .token ⟨kind, 0, [c]⟩ := by
  have hmark : isBlank c = false ∧ isLineBreak c = false := by
    unfold punctuation? at h
    split at h <;> first | exact ⟨rfl, rfl⟩ | cases h
  simp only [ofText, hmark.1, hmark.2, h, Bool.false_eq_true, if_false]

theorem ofText_quote {taken rest : Text} (h : takeQuote? rest = some taken) :
    ofText ('"' :: rest) = .token ⟨.quote, 0, '"' :: taken⟩ := by
  have hblank : ¬ isBlank '"' = true := by decide
  have hbreak : ¬ isLineBreak '"' = true := by decide
  have hmark : punctuation? '"' = none := rfl
  simp only [ofText, if_neg hblank, if_neg hbreak, hmark, if_pos, h]

theorem ofText_openQuote {rest : Text} (h : takeQuote? rest = none) :
    ofText ('"' :: rest) = .fault .unterminatedString 0 := by
  have hblank : ¬ isBlank '"' = true := by decide
  have hbreak : ¬ isLineBreak '"' = true := by decide
  have hmark : punctuation? '"' = none := rfl
  simp only [ofText, if_neg hblank, if_neg hbreak, hmark, if_pos, h]

end Lexeme

/-! ## Tokens -/

namespace Tokens

theorem ofText_mark {c : Char} {kind : TokenKind} (h : punctuation? c = some kind) (rest : Text) :
    ofText (c :: rest) = .next ⟨kind, 0, [c]⟩ (ofText rest) :=
  ofText_of_token (Lexeme.ofText_mark h rest)

/-- The first token of a text behind a blank. -/
theorem ofText_blank {kind : TokenKind} {source rest : Text}
    (h : Lexeme.ofText (source ++ rest) = .token ⟨kind, 0, source⟩) :
    ofText (' ' :: (source ++ rest)) = .next ⟨kind, 1, source⟩ (ofText rest) := by
  have hblank : Lexeme.ofText (' ' :: (source ++ rest)) = .token ⟨kind, 1, source⟩ := by
    show (Lexeme.ofText (source ++ rest)).afterBlank = _
    rw [h]
    rfl
  rw [ofText_of_token hblank, Token.stop, Nat.add_comm, List.drop_succ_cons, List.drop_left]

end Tokens

end MentionCommands
