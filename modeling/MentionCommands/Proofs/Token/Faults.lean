/-
  Where no token can be cut off.

  A double quote is at fault each time: one that opens a quoted text and is never closed, or one
  that stands in a word.

  * `WordFront`: a text that may stand in a word in front of a double quote;
    `takeWord_eq_error_iff`: the scan for words fails just behind such a text;
  * `Obstructs t fault n`: a text starts with what keeps a token from being cut off, and the fault
    stands `n` characters further on; there is one constructor for each fault;
    `ofText_eq_fault_iff`: a text is a fault just if one stands in it behind blanks;
  * `FaultAt t p fault i`: the same for the offsets of a text; `TokenStream.next_eq_error_iff`:
    reading fails just where a fault stands, and the error is located at its double quote.
-/
import MentionCommands.Proofs.Token.Quotes

namespace MentionCommands

/-! ## Words with a double quote -/

/-- A text that may stand in a word in front of a double quote: it has no white space and no double
    quote, and none of its punctuation marks stands in front of another one. -/
structure WordFront (w : Text) : Prop where
  noSpace : ∀ c ∈ w, isSpace c = false
  noQuote : '"' ∉ w
  parted : w.IsChain fun c d => isPunctuation c = true → isPunctuation d = false

section
variable {c : Char} {t w rest : Text} {n : Nat}

namespace WordFront

theorem nil : WordFront [] := ⟨nofun, nofun, .nil⟩

theorem tail (h : WordFront (c :: w)) : WordFront w where
  noSpace := (List.forall_mem_cons.1 h.noSpace).2
  noQuote := List.not_mem_of_not_mem_cons h.noQuote
  parted := h.parted.tail

/-- No word ends at the first character, since no mark, white space or end follows it there. -/
theorem endsWord_eq_false (h : WordFront (c :: w)) (hc : isPunctuation c = true) (rest : Text) :
    endsWord (w ++ '"' :: rest) = false := by
  cases w with
  | nil => rfl
  | cons d w =>
    have hmark := (List.isChain_cons_cons.1 h.parted).1 hc
    have hspace := h.tail.noSpace d List.mem_cons_self
    simp [endsWord, hmark, hspace]

end WordFront

/-- The scan for words fails at the first double quote of a word. -/
theorem takeWord_quote (h : WordFront w) (rest : Text) :
    takeWord (w ++ '"' :: rest) = .error w.length := by
  induction w with
  | nil => rfl
  | cons c w ih =>
    have hspace : ¬ isSpace c = true := by simp [h.noSpace c List.mem_cons_self]
    have hquote : c ≠ '"' := fun hc => h.noQuote (hc ▸ List.mem_cons_self)
    have hmark : ¬ (isPunctuation c && endsWord (w ++ '"' :: rest)) = true := by
      intro hends
      obtain ⟨hc, hends⟩ := Bool.and_eq_true_iff.1 hends
      rw [h.endsWord_eq_false hc] at hends
      cases hends
    rw [List.cons_append, takeWord, if_neg hspace, if_neg hquote, if_neg hmark, ih h.tail]
    rfl

/-- **The scan for words fails just at a double quote behind the front of a word.** -/
theorem takeWord_eq_error_iff :
    takeWord t = .error n ↔ ∃ w rest, t = w ++ '"' :: rest ∧ w.length = n ∧ WordFront w := by
  constructor
  · intro h
    fun_induction takeWord t generalizing n with
    | case1 | case2 | case4 | case5 => cases h
    | case3 rest =>
      cases h
      exact ⟨[], rest, rfl, rfl, .nil⟩
    | case6 c rest hspace hquote hmark offset hoffset ih =>
      cases h
      obtain ⟨w, behind, rfl, rfl, hw⟩ := ih hoffset
      refine ⟨c :: w, behind, rfl, rfl, ?_, ?_, ?_⟩
      · exact List.forall_mem_cons.2 ⟨Bool.eq_false_iff.2 hspace, hw.noSpace⟩
      · exact List.not_mem_cons_of_ne_of_not_mem (Ne.symm hquote) hw.noQuote
      · cases w with
        | nil => exact .singleton c
        | cons d w =>
          refine List.isChain_cons_cons.2 ⟨fun hc => ?_, hw.parted⟩
          rw [Bool.eq_false_iff]
          exact fun hd => hmark (by simp [endsWord, hc, hd])
  · rintro ⟨w, rest, rfl, rfl, hw⟩
    exact takeWord_quote hw rest

end

/-! ## Faults at the front of a text -/

/-- A text starts with what keeps a token from being cut off, because of the double quote that
    stands so many characters further on. -/
inductive Obstructs : Text → LexFault → Nat → Prop
  /-- A quoted text without an end. -/
  | openQuote {rest : Text} (hopen : ∀ j, ¬ ClosesAt rest j) :
      Obstructs ('"' :: rest) .unterminatedString 0
  /-- A word with a double quote in it. -/
  | quoteInWord {c : Char} {w rest : Text} (hplain : punctuation? c = none)
      (hword : WordFront (c :: w)) :
      Obstructs (c :: w ++ '"' :: rest) .quoteInWord (w.length + 1)

namespace Lexeme

variable {t : Text} {fault : LexFault} {n : Nat}

theorem ofText_of_obstructs (h : Obstructs t fault n) : ofText t = .fault fault n := by
  cases h with
  | @openQuote rest hopen =>
    rcases takeQuote?_cases rest with ⟨hnone, -⟩ | ⟨j, -, hleast⟩
    · exact ofText_openQuote hnone
    · exact absurd hleast.1 (hopen j)
  | @quoteInWord c w rest hplain hword =>
    have hspace : isSpace c = false := hword.noSpace c List.mem_cons_self
    have hquote : c ≠ '"' := fun hc => hword.noQuote (hc ▸ List.mem_cons_self)
    have hblank : ¬ isBlank c = true := by simp [isBlank, hspace]
    have hbreak : ¬ isLineBreak c = true := fun hbreak => by
      rw [isSpace_of_isLineBreak hbreak] at hspace
      cases hspace
    have htake := takeWord_quote hword rest
    rw [List.cons_append] at htake ⊢
    simp only [ofText, if_neg hblank, if_neg hbreak, hplain, if_neg hquote, htake, List.length_cons]

/-- Blanks in front of a fault move it. -/
theorem ofText_append_of_fault (h : ofText t = .fault fault n) {gap : Text}
    (hgap : gap.all isBlank = true) : ofText (gap ++ t) = .fault fault (gap.length + n) := by
  induction gap with
  | nil => rwa [List.nil_append, List.length_nil, Nat.zero_add]
  | cons c gap ih =>
    obtain ⟨hblank, hgap⟩ := Bool.and_eq_true_iff.1 hgap
    have hlength : 1 + (gap.length + n) = (c :: gap).length + n := by
      rw [List.length_cons]
      omega
    rw [List.cons_append, ofText, if_pos hblank, ih hgap, afterBlank, hlength]

/-- **A text is a fault just if one stands in it behind blanks.** -/
theorem ofText_eq_fault_iff : ofText t = .fault fault n ↔
    ∃ gap rest m, t = gap ++ rest ∧ gap.all isBlank = true ∧ Obstructs rest fault m ∧
      gap.length + m = n := by
  constructor
  · intro h
    fun_induction ofText t generalizing n with
    | case1 | case3 | case4 | case5 | case7 => cases h
    | case2 c rest hblank ih =>
      cases hl : ofText rest with
      | finished | token =>
        rw [hl] at h
        cases h
      | fault reason offset =>
        rw [hl] at h
        cases h
        obtain ⟨gap, behind, m, rfl, hgap, hobstructs, rfl⟩ := ih hl
        refine ⟨c :: gap, behind, m, rfl, by simp [hblank, hgap], hobstructs, ?_⟩
        rw [List.length_cons]
        omega
    | case6 rest hnone =>
      cases h
      rcases takeQuote?_cases rest with ⟨-, hno⟩ | ⟨j, hsome, -⟩
      · exact ⟨[], '"' :: rest, 0, rfl, rfl, .openQuote hno, rfl⟩
      · cases hnone.symm.trans hsome
    | case8 c rest _ _ hplain hquote offset hoffset =>
      cases h
      obtain ⟨w, behind, hw, rfl, hfront⟩ := takeWord_eq_error_iff.1 hoffset
      cases w with
      | nil =>
        cases hw
        exact absurd rfl hquote
      | cons d w =>
        obtain ⟨rfl, rfl⟩ := List.cons.inj hw
        exact ⟨[], c :: w ++ '"' :: behind, _, rfl, rfl, .quoteInWord hplain hfront,
          Nat.zero_add _⟩
  · rintro ⟨gap, rest, m, rfl, hgap, hobstructs, rfl⟩
    exact ofText_append_of_fault (ofText_of_obstructs hobstructs) hgap

end Lexeme

/-! ## Faults at an offset -/

/-- Behind an offset `p` no token can be cut off, because of the double quote at `i`. -/
inductive FaultAt (t : Text) (p : Nat) : LexFault → Nat → Prop
  /-- Behind blanks it opens a quoted text, and nothing closes that. -/
  | unterminatedString {i : Nat} (hle : p ≤ i) (hblank : (t.slice p i).all isBlank = true)
      (hquote : t[i]? = some '"') (hopen : ∀ j, ¬ Closes t i j) : FaultAt t p .unterminatedString i
  /-- It stands in a word that starts behind blanks at `m`, and with no mark. -/
  | quoteInWord {m i : Nat} (hle : p ≤ m) (hlt : m < i) (hblank : (t.slice p m).all isBlank = true)
      (hplain : ∀ c, t[m]? = some c → punctuation? c = none) (hword : WordFront (t.slice m i))
      (hquote : t[i]? = some '"') : FaultAt t p .quoteInWord i

section
variable {t front rest : Text} {c : Char} {p i n : Nat} {fault : LexFault}

/-- What stands behind an offset, told by offsets. -/
theorem slice_of_drop (h : t.drop p = front ++ c :: rest) :
    t.slice p (p + front.length) = front ∧ t[p + front.length]? = some c ∧
      t.drop (p + front.length + 1) = rest := by
  refine ⟨?_, ?_, ?_⟩
  · rw [Text.slice, Nat.add_sub_cancel_left, h, List.take_left]
  · rw [← List.getElem?_drop, h, List.getElem?_append_right (Nat.le_refl _), Nat.sub_self]
    rfl
  · rw [Nat.add_assoc, ← List.drop_drop, h, ← List.drop_drop, List.drop_left]
    rfl

theorem drop_eq_slice_append (t : Text) (hle : p ≤ i) : t.drop p = t.slice p i ++ t.drop i := by
  have hdrop : (t.drop p).drop (i - p) = t.drop i := by
    rw [List.drop_drop, Nat.add_sub_cancel' hle]
  rw [Text.slice, ← hdrop, List.take_append_drop]

theorem length_slice_of_lt (hlt : i < t.length) (p : Nat) : (t.slice p i).length = i - p := by
  rw [Text.length_slice]
  omega

theorem FaultAt.le (h : FaultAt t p fault i) : p ≤ i := by
  cases h with
  | unterminatedString hle => exact hle
  | quoteInWord hle hlt => exact Nat.le_of_lt (Nat.lt_of_le_of_lt hle hlt)

theorem FaultAt.quote (h : FaultAt t p fault i) : t[i]? = some '"' := by
  cases h <;> assumption

theorem FaultAt.lt_length (h : FaultAt t p fault i) : i < t.length :=
  (List.getElem?_eq_some_iff.1 h.quote).1

theorem faultAt_of_ofText (h : Lexeme.ofText (t.drop p) = .fault fault n) :
    FaultAt t p fault (p + n) := by
  obtain ⟨gap, rest, m, hdrop, hgap, hobstructs, rfl⟩ := Lexeme.ofText_eq_fault_iff.1 h
  cases hobstructs with
  | @openQuote rest hopen =>
    obtain ⟨hslice, hquote, hrest⟩ := slice_of_drop hdrop
    refine .unterminatedString (Nat.le_add_right p _) (hslice.symm ▸ hgap) hquote fun j hj => ?_
    obtain ⟨k, -, hk⟩ := closes_iff.1 hj
    exact hopen k (hrest ▸ hk)
  | @quoteInWord c w rest hplain hword =>
    obtain ⟨hslice, hc, -⟩ := slice_of_drop hdrop
    have hbehind : t.drop (p + gap.length) = c :: w ++ '"' :: rest := by
      rw [← List.drop_drop, hdrop, List.drop_left]
    obtain ⟨hslice', hquote, -⟩ := slice_of_drop hbehind
    rw [List.length_cons, Nat.add_assoc] at hslice' hquote
    refine .quoteInWord (Nat.le_add_right p _) (by omega) (hslice.symm ▸ hgap) (fun d hd => ?_)
      (hslice'.symm ▸ hword) hquote
    cases hc.symm.trans hd
    exact hplain

theorem ofText_of_faultAt (h : FaultAt t p fault i) :
    Lexeme.ofText (t.drop p) = .fault fault (i - p) := by
  have hlt := h.lt_length
  cases h with
  | unterminatedString hle hblank hquote hopen =>
    refine Lexeme.ofText_eq_fault_iff.2 ⟨t.slice p i, t.drop i, 0, drop_eq_slice_append t hle,
      hblank, ?_, length_slice_of_lt hlt p⟩
    rw [drop_of_getElem? hquote]
    exact .openQuote fun j hj => hopen _ (closes_iff.2 ⟨j, rfl, hj⟩)
  | @quoteInWord m i hle hmi hblank hplain hword hquote =>
    have hlength := length_slice_of_lt hlt m
    refine Lexeme.ofText_eq_fault_iff.2 ⟨t.slice p m, t.drop m, i - m, drop_eq_slice_append t hle,
      hblank, ?_, ?_⟩
    · have hbehind := drop_eq_slice_append t (Nat.le_of_lt hmi)
      obtain ⟨c, w, hslice⟩ := List.exists_cons_of_length_pos (by omega : 0 < (t.slice m i).length)
      rw [hslice] at hbehind hword hlength
      have hc : t[m]? = some c := by rw [← List.head?_drop, hbehind]; rfl
      rw [hbehind, drop_of_getElem? hquote, ← hlength]
      exact .quoteInWord (hplain c hc) hword
    · rw [length_slice_of_lt (Nat.lt_trans hmi hlt)]
      omega

end

namespace TokenStream

/-- **Reading fails just where a fault stands**, and the error is located at its double quote. -/
theorem next_eq_error_iff {s : TokenStream} {error : Diagnostic} : s.next = .error error ↔
    ∃ fault i, FaultAt s.text s.position fault i ∧ error = .ofLexFault fault s.text i := by
  unfold next
  constructor
  · intro h
    cases hl : Lexeme.ofText s.remaining with
    | finished | token =>
      rw [hl] at h
      cases h
    | fault fault n =>
      rw [hl] at h
      cases h
      exact ⟨fault, _, faultAt_of_ofText hl, rfl⟩
  · rintro ⟨fault, i, hfault, rfl⟩
    have hl : Lexeme.ofText s.remaining = .fault fault (i - s.position) := ofText_of_faultAt hfault
    rw [hl]
    show Except.error (s.lexicalFailure fault (i - s.position)) = _
    rw [lexicalFailure, Nat.add_sub_cancel' hfault.le]

end TokenStream

end MentionCommands
