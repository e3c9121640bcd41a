/-
  Tokens of a text that is cut behind them.

  A scan looks one character past what it takes, and the end of the text may stand for that
  character.

  * `takeBreaks_take`, `takeQuote?_take` and `takeWord_take`: what a scan takes from a text, it
    takes from every front of the text that reaches as far;
  * `Leads.take` and `Lexeme.ofText_take`: so a token leads such a front, and is cut off it.
-/
import MentionCommands.Proofs.Token.Leading

namespace MentionCommands

theorem takeBreaks_take {t : Text} {n : Nat} (h : (takeBreaks t).length ≤ n) :
    takeBreaks (t.take n) = takeBreaks t := by
  induction t generalizing n with
  | nil => rw [List.take_nil]
  | cons c rest ih =>
    cases n with
    | zero => exact (List.length_eq_zero_iff.1 (Nat.le_zero.1 h)).symm
    | succ n =>
      have hrest : (takeBreaks rest).length ≤ n ∨ isSpace c = false := by
        by_cases hspace : isSpace c = true
        · left
          simp only [takeBreaks, hspace, if_true] at h
          split at h
          · rename_i hnil
            rw [hnil]
            exact Nat.zero_le n
          · exact Nat.le_of_succ_le_succ h
        · exact Or.inr (Bool.eq_false_iff.2 hspace)
      rw [List.take_succ_cons, takeBreaks, takeBreaks]
      rcases hrest with hrest | hspace
      · rw [ih hrest]
      · rw [hspace]
        rfl

theorem takeQuote?_take {t taken : Text} {n : Nat} (h : takeQuote? t = some taken)
    (hn : taken.length ≤ n) : takeQuote? (t.take n) = some taken := by
  fun_induction takeQuote? t generalizing taken n with
  | case1 => cases h
  | case2 rest =>
    cases h
    obtain ⟨n, rfl⟩ := Nat.exists_eq_succ_of_ne_zero (Nat.ne_of_gt hn)
    rw [List.take_succ_cons, takeQuote?.eq_def]
    rfl
  | case3 => cases h
  | case4 d rest _ ih =>
    obtain ⟨taken, htaken, rfl⟩ := Option.map_eq_some_iff.1 h
    obtain ⟨n, rfl⟩ := Nat.exists_eq_add_of_le' (Nat.le_trans (Nat.le_add_left 2 _) hn)
    have hrest := ih htaken (Nat.le_of_succ_le_succ (Nat.le_of_succ_le_succ hn))
    rw [List.take_succ_cons, List.take_succ_cons, takeQuote?.eq_def]
    simp [hrest]
  | case5 c rest hquote hslash ih =>
    obtain ⟨taken, htaken, rfl⟩ := Option.map_eq_some_iff.1 h
    obtain ⟨n, rfl⟩ := Nat.exists_eq_add_of_le' (Nat.le_trans (Nat.le_add_left 1 _) hn)
    have hrest := ih htaken (Nat.le_of_succ_le_succ hn)
    rw [List.take_succ_cons, takeQuote?.eq_def]
    simp [hquote, hslash, hrest]

theorem endsWord_take {t : Text} (h : endsWord t = true) (n : Nat) :
    endsWord (t.take n) = true := by
  cases t with
  | nil => rwa [List.take_nil]
  | cons c rest =>
    cases n with
    | zero => rfl
    | succ n => exact h

theorem takeWord_take {t taken : Text} {n : Nat} (h : takeWord t = .ok taken)
    (hn : taken.length ≤ n) : takeWord (t.take n) = .ok taken := by
  fun_induction takeWord t generalizing taken n with
  | case1 => rwa [List.take_nil, takeWord]
  | case2 c rest hspace =>
    cases h
    cases n with
    | zero => rfl
    | succ n => rw [List.take_succ_cons, takeWord, if_pos hspace]
  | case3 => cases h
  | case4 c rest hspace hquote hmark =>
    cases h
    cases n with
    | zero => rfl
    | succ n =>
      obtain ⟨hc, hends⟩ := Bool.and_eq_true_iff.1 hmark
      rw [List.take_succ_cons, takeWord, if_neg hspace, if_neg hquote, hc, endsWord_take hends]
      rfl
  | case5 c rest hspace hquote hmark taken htaken ih =>
    cases h
    obtain ⟨n, rfl⟩ := Nat.exists_eq_add_of_le' (Nat.le_trans (Nat.le_add_left 1 _) hn)
    have hlength := Nat.le_of_succ_le_succ hn
    -- a cut right behind `c` would make a mark of it end the word, but no word ends in a mark
    have hmark' : ¬ (isPunctuation c && endsWord (rest.take n)) = true := by
      intro hcut
      obtain ⟨hc, hends⟩ := Bool.and_eq_true_iff.1 hcut
      refine hmark (Bool.and_eq_true_iff.2 ⟨hc, ?_⟩)
      cases n with
      | zero =>
        obtain rfl := List.length_eq_zero_iff.1 (Nat.le_zero.1 hlength)
        exact endsWord_of_takeWord htaken
      | succ n =>
        cases rest with
        | nil => rfl
        | cons d rest => exact hends
    rw [List.take_succ_cons, takeWord, if_neg hspace, if_neg hquote, if_neg hmark',
      ih htaken hlength]
  | case6 => cases h

/-- What leads a text leads every front of the text that reaches as far. -/
theorem Leads.take {t source : Text} {kind : TokenKind} {n : Nat} (h : Leads t kind source)
    (hn : source.length ≤ n) : Leads (t.take n) kind source := by
  have hpos : 0 < source.length := by
    obtain ⟨c, w, rfl, -⟩ := h.exists_cons
    exact Nat.succ_pos _
  obtain ⟨n, rfl⟩ := Nat.exists_eq_succ_of_ne_zero (Nat.ne_of_gt (Nat.lt_of_lt_of_le hpos hn))
  cases h with
  | @lineEnd c rest hbreak =>
    have htake := takeBreaks_take hn
    rw [List.take_succ_cons] at htake ⊢
    rw [← htake]
    exact .lineEnd hbreak
  | mark hkind => exact .mark hkind
  | quote htaken => exact .quote (takeQuote?_take htaken (Nat.le_of_succ_le_succ hn))
  | word hplain htaken =>
    have htake := takeWord_take htaken hn
    rw [List.take_succ_cons] at htake ⊢
    exact .word hplain htake

/-- **A token is cut off in the same way if the text is cut behind it.** -/
theorem Lexeme.ofText_take {t : Text} {k : Token} {n : Nat} (h : ofText t = .token k)
    (hn : k.stop ≤ n) : ofText (t.take n) = .token k := by
  obtain ⟨gap, rest, rfl, hgap, hlength, hleads⟩ := exists_leads_of_ofText h
  rw [Token.stop, ← hlength] at hn
  rw [List.take_append, List.take_of_length_le (by omega),
    (hleads.take (by omega)).ofText_append_eq hgap, hlength]

end MentionCommands
