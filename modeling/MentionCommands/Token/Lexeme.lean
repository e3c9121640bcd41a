/-
  Lexemes: how the first token of a text is cut off.

  Blanks are skipped.  Then a line break starts a run of white space that reaches to its last
  line break; a punctuation mark is a token of its own; a double quote opens a quoted text; any
  other character starts a word.  A word ends before white space, and before a punctuation mark
  that is followed by white space, another mark or the end; a double quote in a word is a fault,
  and so is a quoted text without an end.

  * `Lexeme.ofText` is the cut; `takeBreaks`, `takeQuote?` and `takeWord` are its three scans;
  * `Lexeme.eq_append_of_ofText`: a token is a part of the text behind some blanks, and not empty.
-/
import MentionCommands.Text.Space
import MentionCommands.Token.Basic

namespace MentionCommands

/-- Why a token cannot be cut off. -/
inductive LexFault where
  /-- A quoted text has no closing double quote. -/
  | unterminatedString
  /-- A double quote stands inside a word. -/
  | quoteInWord
  deriving DecidableEq, Repr

/-- The front of a text that starts with a line break: its white space up to the last break. -/
def takeBreaks : Text → Text
  | [] => []
  | c :: rest =>
    if isSpace c then
      match takeBreaks rest with
      | [] => if isLineBreak c then [c] else []
      | taken => c :: taken
    else []

theorem takeBreaks_isPrefix (t : Text) : takeBreaks t <+: t := by
  fun_induction takeBreaks t with
  | case1 => exact List.prefix_refl _
  | case2 c rest _ hrest _ => simp
  | case3 c rest _ hrest _ => exact List.nil_prefix
  | case4 c rest _ _ ih => exact (List.prefix_cons_inj c).2 ih
  | case5 => exact List.nil_prefix

/-- The rest of a quoted text, through its closing quote; a backslash keeps the next character
    from closing. -/
def takeQuote? : Text → Option Text
  | [] => none
  | c :: rest =>
    if c = '"' then some [c]
    else if c = '\\' then
      match rest with
      | [] => none
      | d :: rest => (takeQuote? rest).map fun taken => c :: d :: taken
    else (takeQuote? rest).map (c :: ·)

theorem isPrefix_of_takeQuote? {t taken : Text} (h : takeQuote? t = some taken) : taken <+: t := by
  fun_induction takeQuote? t generalizing taken with
  | case1 => cases h
  | case2 => cases h; simp
  | case3 => cases h
  | case4 d rest _ ih =>
    obtain ⟨u, hu, rfl⟩ := Option.map_eq_some_iff.1 h
    simpa using ih hu
  | case5 c rest _ _ ih =>
    obtain ⟨u, hu, rfl⟩ := Option.map_eq_some_iff.1 h
    simpa using ih hu

/-- Whether a punctuation mark ends a word when `rest` follows it. -/
def endsWord : Text → Bool
  | [] => true
  | c :: _ => isSpace c || isPunctuation c

/-- The word at the front of a text, or the offset of the double quote in it. -/
def takeWord : Text → Except Nat Text
  | [] => .ok []
  | c :: rest =>
    if isSpace c then .ok []
    else if c = '"' then .error 0
    else if isPunctuation c && endsWord rest then .ok []
    else match takeWord rest with
      | .ok taken => .ok (c :: taken)
      | .error offset => .error (offset + 1)

theorem isPrefix_of_takeWord {t taken : Text} (h : takeWord t = .ok taken) : taken <+: t := by
  fun_induction takeWord t generalizing taken with
  | case1 | case2 | case4 => cases h; exact List.nil_prefix
  | case3 => cases h
  | case5 c rest _ _ _ u hu ih => cases h; simpa using ih hu
  | case6 => cases h

/-- What stands at the front of a text. -/
inductive Lexeme where
  /-- Nothing but blanks. -/
  | finished
  /-- No token can be cut off, because of what stands `offset` characters further on. -/
  | fault (reason : LexFault) (offset : Nat)
  /-- A token. -/
  | token (t : Token)
  deriving DecidableEq, Repr

namespace Lexeme

/-- The same lexeme after one more blank. -/
def afterBlank : Lexeme → Lexeme
  | finished => finished
  | fault reason offset => fault reason (1 + offset)
  | token t => token (t.shift 1)

/-- The lexeme at the front of a text. -/
def ofText : Text → Lexeme
  | [] => finished
  | c :: rest =>
    if isBlank c then (ofText rest).afterBlank
    else if isLineBreak c then token ⟨.endOfLine, 0, takeBreaks (c :: rest)⟩
    else match punctuation? c with
      | some kind => token ⟨kind, 0, [c]⟩
      | none =>
        if c = '"' then
          match takeQuote? rest with
          | some taken => token ⟨.quote, 0, c :: taken⟩
          | none => fault .unterminatedString 0
        else
          match takeWord (c :: rest) with
          | .ok taken => token ⟨.word, 0, taken⟩
          | .error offset => fault .quoteInWord offset

/-- **A token is a part of the text behind some blanks**, and not empty. -/
theorem eq_append_of_ofText {t : Text} {k : Token} (h : ofText t = token k) :
    ∃ gap rest, t = gap ++ k.source ++ rest ∧ gap.length = k.start ∧
      gap.all isBlank = true ∧ k.source ≠ [] := by
  fun_induction ofText t generalizing k with
  | case1 => cases h
  | case2 c rest hc ih =>
    match hl : ofText rest with
    | finished | fault _ _ => simp [hl, afterBlank] at h
    | token j =>
      simp only [hl, afterBlank, token.injEq] at h
      subst h
      obtain ⟨gap, behind, ht, hlen, hall, hne⟩ := ih hl
      exact ⟨c :: gap, behind, by simp [Token.shift, ht], by simp [Token.shift, hlen]; omega,
        by simp [hc, hall], hne⟩
  | case3 c rest _ hc =>
    cases h
    obtain ⟨behind, hb⟩ := takeBreaks_isPrefix (c :: rest)
    refine ⟨[], behind, by simpa using hb.symm, rfl, rfl, ?_⟩
    simp only [takeBreaks, isSpace_of_isLineBreak hc, hc, if_true]
    split <;> simp
  | case4 c rest => cases h; exact ⟨[], rest, rfl, rfl, rfl, by simp⟩
  | case5 rest taken ht =>
    cases h
    obtain ⟨behind, hb⟩ := isPrefix_of_takeQuote? ht
    exact ⟨[], behind, by simp [hb], rfl, rfl, by simp⟩
  | case6 => cases h
  | case7 c rest hblank hbreak hp hc taken ht =>
    cases h
    obtain ⟨behind, hb⟩ := isPrefix_of_takeWord ht
    refine ⟨[], behind, by simpa using hb.symm, rfl, rfl, ?_⟩
    rintro rfl
    have hs : isSpace c = false := by simp_all [isBlank]
    simp only [takeWord, hs, hc, isPunctuation, hp, Option.isSome_none, Bool.false_and,
      Bool.false_eq_true, if_false] at ht
    split at ht <;> cases ht
  | case8 => cases h

end Lexeme

end MentionCommands
