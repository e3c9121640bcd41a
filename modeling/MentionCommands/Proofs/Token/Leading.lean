/-
  Tokens at the front of a text.

  * `Leads t kind source`: the text starts with a token of a kind, written `source`; there is one
    constructor for each way to start;
  * `exists_leads_of_ofText`: what is cut off a text leads it behind some blanks;
    `Leads.ofText_eq` and `Leads.ofText_append_eq`: what leads a text is cut off it, also behind
    blanks;
  * `Leads.append`: the characters of a token decide how it is cut off.  What stands behind it
    matters in two ways only: no word goes on there, and no line break follows a line end.
-/
import MentionCommands.Proofs.Token.Words

namespace MentionCommands

/-- A text starts with a token of a kind, written in some characters. -/
inductive Leads : Text → TokenKind → Text → Prop
  /-- White space that starts with a line break, up to its last one. -/
  | lineEnd {c : Char} {rest : Text} (hbreak : isLineBreak c = true) :
      Leads (c :: rest) .endOfLine (takeBreaks (c :: rest))
  /-- A punctuation mark, whatever stands behind it. -/
  | mark {c : Char} {rest : Text} {kind : TokenKind} (hkind : punctuation? c = some kind) :
      Leads (c :: rest) kind [c]
  /-- A text between double quotes. -/
  | quote {rest taken : Text} (htaken : takeQuote? rest = some taken) :
      Leads ('"' :: rest) .quote ('"' :: taken)
  /-- A word that starts with no mark. -/
  | word {c : Char} {rest w : Text} (hplain : punctuation? c = none)
      (htaken : takeWord (c :: rest) = .ok (c :: w)) : Leads (c :: rest) .word (c :: w)

/-! ## Marks -/

/-- Whether tokens of a kind are punctuation marks. -/
def TokenKind.isMark : TokenKind → Bool
  | word | quote | endOfLine => false
  | dot | comma | semicolon | exclamation | question | colon => true

theorem TokenKind.isMark_cases (kind : TokenKind) :
    kind = word ∨ kind = quote ∨ kind = endOfLine ∨ kind.isMark = true := by
  cases kind <;> simp [isMark]

section
variable {c : Char} {kind : TokenKind}

theorem isMark_of_punctuation? (h : punctuation? c = some kind) : kind.isMark = true := by
  unfold punctuation? at h
  split at h <;> cases h <;> rfl

/-- A punctuation mark is no white space. -/
theorem isSpace_of_punctuation? (h : punctuation? c = some kind) : isSpace c = false := by
  unfold punctuation? at h
  split at h <;> first | rfl | cases h

end

/-! ## Scans of what they have taken -/

theorem takeBreaks_break {c : Char} (h : isLineBreak c = true) (rest : Text) :
    takeBreaks (c :: rest) = c :: takeBreaks rest := by
  rw [takeBreaks, if_pos (isSpace_of_isLineBreak h)]
  cases takeBreaks rest with
  | nil => exact if_pos h
  | cons => rfl

theorem takeBreaks_append {t rest : Text} (h : takeBreaks rest = []) :
    takeBreaks (takeBreaks t ++ rest) = takeBreaks t := by
  fun_induction takeBreaks t with
  | case1 | case3 | case5 => exact h
  | case2 c _ hspace _ hbreak => rw [List.singleton_append, takeBreaks_break hbreak, h]
  | case4 c t hspace hne ih =>
    obtain ⟨d, taken, htaken⟩ := List.exists_cons_of_ne_nil hne
    rw [List.cons_append, takeBreaks, if_pos hspace, ih, htaken]

theorem takeQuote?_append {t taken : Text} (h : takeQuote? t = some taken) (rest : Text) :
    takeQuote? (taken ++ rest) = some taken := by
  fun_induction takeQuote? t generalizing taken with
  | case1 | case3 => cases h
  | case2 =>
    cases h
    exact takeQuote?_quote rest
  | case4 d t _ ih =>
    obtain ⟨taken, htaken, rfl⟩ := Option.map_eq_some_iff.1 h
    rw [List.cons_append, List.cons_append, takeQuote?_backslash, ih htaken]
    rfl
  | case5 c t hquote hslash ih =>
    obtain ⟨taken, htaken, rfl⟩ := Option.map_eq_some_iff.1 h
    rw [List.cons_append, takeQuote?_cons hquote hslash, ih htaken]
    rfl

/-- What a scan for words takes is safe. -/
theorem wordSafe_of_takeWord {t w : Text} (h : takeWord t = .ok w) (hne : w ≠ []) : WordSafe w := by
  obtain ⟨rest, rfl⟩ := isPrefix_of_takeWord h
  exact ((takeWord_append_iff hne).1 h).1

/-! ## What leads a text -/

namespace Leads

variable {t rest source : Text} {kind : TokenKind}

theorem isPrefix (h : Leads t kind source) : source <+: t := by
  cases h with
  | lineEnd => exact takeBreaks_isPrefix _
  | mark => exact (List.prefix_cons_inj _).2 List.nil_prefix
  | quote htaken => exact (List.prefix_cons_inj '"').2 (isPrefix_of_takeQuote? htaken)
  | word _ htaken => exact isPrefix_of_takeWord htaken

/-- Only a line end starts with white space. -/
theorem exists_cons (h : Leads t kind source) :
    ∃ c w, source = c :: w ∧ (kind ≠ .endOfLine → isSpace c = false) := by
  cases h with
  | @lineEnd c t hbreak => exact ⟨c, _, takeBreaks_break hbreak t, fun hne => absurd rfl hne⟩
  | mark hkind => exact ⟨_, [], rfl, fun _ => isSpace_of_punctuation? hkind⟩
  | quote => exact ⟨'"', _, rfl, fun _ => by decide⟩
  | @word c t w _ htaken => exact ⟨c, w, rfl, fun _ => (takeWord_cons htaken).1⟩

/-- A mark is one character. -/
theorem of_mark (h : Leads t kind source) (hmark : kind.isMark = true) :
    ∃ c, t.head? = some c ∧ punctuation? c = some kind ∧ source = [c] := by
  cases h with
  | lineEnd | quote | word => cases hmark
  | @mark c rest _ hkind => exact ⟨c, rfl, hkind, rfl⟩

/-- A word is what its scan takes, and starts with no mark. -/
theorem of_word (h : Leads t .word source) :
    takeWord t = .ok source ∧ ∀ c, t.head? = some c → punctuation? c = none := by
  cases h with
  | mark hkind => cases isMark_of_punctuation? hkind
  | word hplain htaken => exact ⟨htaken, by simpa using hplain⟩

/-- A line end is what its scan takes. -/
theorem of_lineEnd (h : Leads t .endOfLine source) :
    ∃ c rest, t = c :: rest ∧ isLineBreak c = true ∧ source = takeBreaks (c :: rest) := by
  cases h with
  | mark hkind => cases isMark_of_punctuation? hkind
  | lineEnd hbreak => exact ⟨_, _, rfl, hbreak, rfl⟩

/-- **What leads a text is cut off it.** -/
theorem ofText_eq (h : Leads t kind source) : Lexeme.ofText t = .token ⟨kind, 0, source⟩ := by
  cases h with
  | @lineEnd c rest hbreak =>
    have hblank : ¬ isBlank c = true := by simp [isBlank, hbreak]
    rw [Lexeme.ofText, if_neg hblank, if_pos hbreak]
  | mark hkind => exact Lexeme.ofText_mark hkind _
  | quote htaken => exact Lexeme.ofText_quote htaken
  | @word c rest w hplain htaken =>
    have hne : c :: w ≠ [] := List.cons_ne_nil c w
    obtain ⟨behind, hbehind⟩ := isPrefix_of_takeWord htaken
    rw [← hbehind] at htaken ⊢
    obtain ⟨hsafe, hends⟩ := (takeWord_append_iff hne).1 htaken
    exact Lexeme.ofText_word hsafe hplain hends

/-- The same behind blanks. -/
theorem ofText_append_eq (h : Leads t kind source) {gap : Text} (hgap : gap.all isBlank = true) :
    Lexeme.ofText (gap ++ t) = .token ⟨kind, gap.length, source⟩ := by
  induction gap with
  | nil => exact h.ofText_eq
  | cons c gap ih =>
    obtain ⟨hblank, hgap⟩ := Bool.and_eq_true_iff.1 hgap
    rw [List.cons_append, Lexeme.ofText, if_pos hblank, ih hgap, List.length_cons, Nat.add_comm]
    rfl

/-- **The characters of a token decide how it is cut off.** -/
theorem append (h : Leads t kind source) (hword : takeWord rest = .ok [])
    (hbreaks : kind = .endOfLine → takeBreaks rest = []) : Leads (source ++ rest) kind source := by
  cases h with
  | @lineEnd c t hbreak =>
    have happend := takeBreaks_append (t := c :: t) (hbreaks rfl)
    rw [takeBreaks_break hbreak, List.cons_append] at happend ⊢
    have hleads : Leads (c :: (takeBreaks t ++ rest)) .endOfLine _ := .lineEnd hbreak
    rwa [happend] at hleads
  | mark hkind => exact .mark hkind
  | quote htaken => exact .quote (takeQuote?_append htaken rest)
  | @word c t w hplain htaken =>
    exact .word hplain (takeWord_append (wordSafe_of_takeWord htaken (List.cons_ne_nil c w)) hword)

end Leads

/-! ## What is cut off -/

/-- **What is cut off a text leads it behind some blanks.** -/
theorem exists_leads_of_ofText {t : Text} {k : Token} (h : Lexeme.ofText t = .token k) :
    ∃ gap rest, t = gap ++ rest ∧ gap.all isBlank = true ∧ gap.length = k.start ∧
      Leads rest k.kind k.source := by
  fun_induction Lexeme.ofText t generalizing k with
  | case1 | case6 | case8 => cases h
  | case2 c rest hblank ih =>
    cases hl : Lexeme.ofText rest with
    | finished | fault =>
      rw [hl] at h
      cases h
    | token j =>
      rw [hl] at h
      cases h
      obtain ⟨gap, rest, rfl, hgap, hlength, hleads⟩ := ih hl
      refine ⟨c :: gap, rest, rfl, by simp [hblank, hgap], ?_, hleads⟩
      rw [List.length_cons, hlength, Nat.add_comm]
      rfl
  | case3 c rest _ hbreak =>
    cases h
    exact ⟨[], c :: rest, rfl, rfl, rfl, .lineEnd hbreak⟩
  | case4 c rest _ _ kind hkind =>
    cases h
    exact ⟨[], c :: rest, rfl, rfl, rfl, .mark hkind⟩
  | case5 rest taken htaken =>
    cases h
    exact ⟨[], '"' :: rest, rfl, rfl, rfl, .quote htaken⟩
  | case7 c rest hblank hbreak hplain hquote taken htaken =>
    cases h
    have hspace : ¬ isSpace c = true := by simp_all [isBlank]
    have hmark : ¬ (isPunctuation c && endsWord rest) = true := by simp [isPunctuation, hplain]
    -- a first character that is no mark goes into the word
    have hfirst : ∃ w, taken = c :: w := by
      rw [takeWord, if_neg hspace, if_neg hquote, if_neg hmark] at htaken
      split at htaken
      · cases htaken
        exact ⟨_, rfl⟩
      · cases htaken
    obtain ⟨w, rfl⟩ := hfirst
    exact ⟨[], c :: rest, rfl, rfl, rfl, .word hplain htaken⟩

/-- A word is what the scan for words takes. -/
theorem Lexeme.takeWord_of_ofText {t w : Text} (h : ofText t = .token ⟨.word, 0, w⟩) :
    takeWord t = .ok w := by
  obtain ⟨gap, rest, rfl, -, hlength, hleads⟩ := exists_leads_of_ofText h
  obtain rfl := List.length_eq_zero_iff.1 hlength
  exact hleads.of_word.1

end MentionCommands
