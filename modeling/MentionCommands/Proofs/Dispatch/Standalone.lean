/-
  Mentions, told by the characters around them.

  * `StandsAlone`: the mark of the bot stands at an offset, no word goes on into it and none goes on
    behind it;
  * `mentionAt_iff`: a bot is mentioned where its mark stands alone, if its name is safe in words,
    and nowhere if it is not;
  * `findMarker?_standsAlone`: so the search finds the first mark that stands alone.
-/
import MentionCommands.Proofs.Dispatch.Rule
import MentionCommands.Proofs.Indexed.Session
import MentionCommands.Proofs.Token.Leading

namespace MentionCommands

/-- The mark of the bot stands alone at an offset: neither a letter, a digit, an underscore nor
    another `@` stands in front, and behind it the text ends, white space follows, or a punctuation
    mark that is itself followed by the end, white space or another mark. -/
structure StandsAlone (t bot : Text) (i : Nat) : Prop where
  mark : t.slice i (i + (marker bot).length) = marker bot
  front : i = 0 ∨ ∃ c, t[i - 1]? = some c ∧ isAlphanumeric c = false ∧ c ≠ '_' ∧ c ≠ '@'
  behind : ∀ c, t[i + (marker bot).length]? = some c →
    isSpace c = true ∨ isPunctuation c = true ∧
      ∀ d, t[i + (marker bot).length + 1]? = some d → isSpace d = true ∨ isPunctuation d = true

section
variable {t bot : Text} {i : Nat}

theorem slice_marker_iff :
    t.slice i (i + (marker bot).length) = marker bot ↔ marker bot <+: t.drop i := by
  rw [Text.slice, Nat.add_sub_cancel_left, List.prefix_iff_eq_take, eq_comm]

theorem continuesWord_eq_false_iff {c : Char} :
    continuesWord c = false ↔ isAlphanumeric c = false ∧ c ≠ '_' ∧ c ≠ '@' := by
  simp [continuesWord, and_assoc]

/-- No word goes on into an offset of the text. -/
theorem free_iff (hi : i ≤ t.length) :
    (∀ j c, i = j + 1 → t[j]? = some c → continuesWord c = false) ↔
      (i = 0 ∨ ∃ c, t[i - 1]? = some c ∧ isAlphanumeric c = false ∧ c ≠ '_' ∧ c ≠ '@') := by
  cases i with
  | zero => simp
  | succ j =>
    have hj : t[j]? = some t[j] := List.getElem?_eq_getElem hi
    simp only [Nat.add_sub_cancel, Nat.succ_ne_zero, false_or, ← continuesWord_eq_false_iff]
    constructor
    · intro h
      exact ⟨t[j], hj, h j _ rfl hj⟩
    · rintro ⟨c, hc, hplain⟩ _ d ⟨⟩ hd
      rw [hc] at hd
      cases hd
      exact hplain

/-- The mark of a bot is safe in words just if its name is. -/
theorem wordSafe_marker_iff (hbot : bot ≠ []) : WordSafe (marker bot) ↔ WordSafe bot := by
  constructor
  · intro h
    obtain ⟨d, w, rfl⟩ := List.exists_cons_of_ne_nil hbot
    exact h.tail
  · exact WordSafe.cons (by decide) (by decide) rfl

/-- The mark of the bot is cut off as a word if it is safe and a word ends behind it. -/
theorem ofText_marker_iff {rest : Text} (hbot : bot ≠ []) :
    Lexeme.ofText (marker bot ++ rest) = .token ⟨.word, 0, marker bot⟩ ↔
      WordSafe bot ∧ takeWord rest = .ok [] := by
  rw [← wordSafe_marker_iff hbot]
  constructor
  · intro h
    exact (takeWord_append_iff (List.cons_ne_nil '@' bot)).1 (Lexeme.takeWord_of_ofText h)
  · rintro ⟨hsafe, hrest⟩
    exact Lexeme.ofText_word hsafe rfl hrest

/-- **A bot is mentioned where its mark stands alone**, if its name is safe in words, and nowhere if
    it is not. -/
theorem mentionAt_iff (hbot : bot ≠ []) :
    MentionAt t bot i ↔ WordSafe bot ∧ StandsAlone t bot i := by
  have hdrop {rest : Text} (ht : marker bot ++ rest = t.drop i) :
      t.drop (i + (marker bot).length) = rest := by
    rw [← List.drop_drop, ← ht, List.drop_left]
  constructor
  · intro h
    obtain ⟨rest, ht⟩ := h.drop_eq
    have hi : i ≤ t.length := (Nat.le_add_right ..).trans h.add_le_length
    have htoken := h.token
    rw [ht] at htoken
    obtain ⟨hsafe, hrest⟩ := (ofText_marker_iff hbot).1 htoken
    refine ⟨hsafe, slice_marker_iff.2 ⟨rest, ht.symm⟩, (free_iff hi).1 h.free, ?_⟩
    rw [← takeWord_drop_eq_nil_iff, hdrop ht.symm, hrest]
  · rintro ⟨hsafe, h⟩
    have hmark := slice_marker_iff.1 h.mark
    have hi := (Indexed.lt_length_of_isPrefix hmark).le
    obtain ⟨rest, ht⟩ := hmark
    have hrest := takeWord_drop_eq_nil_iff.2 h.behind
    rw [hdrop ht] at hrest
    refine ⟨(free_iff hi).2 h.front, ?_⟩
    rw [← ht]
    exact (ofText_marker_iff hbot).2 ⟨hsafe, hrest⟩

end

/-- **The search finds the first mark that stands alone** from the cursor on, and nothing just if no
    mark does; the stream that it hands on starts at the mark and reads on behind it.  A bot whose
    name is not safe in words is never found. -/
theorem findMarker?_standsAlone (t bot : Text) (cursor : Nat) :
    Indexed.Source.findMarker? t bot cursor =
      some ((nextMention? t bot cursor).map (streamBehind t bot)) ∧
    (WordSafe bot →
      (∀ i, nextMention? t bot cursor = some i ↔
        IsLeast {i | cursor ≤ i ∧ StandsAlone t bot i} i) ∧
      (nextMention? t bot cursor = none ↔ ∀ i, cursor ≤ i → ¬ StandsAlone t bot i)) ∧
    (bot ≠ [] → ¬ WordSafe bot → nextMention? t bot cursor = none) := by
  refine ⟨Indexed.findMarker?_eq t bot cursor, fun hsafe => ?_, fun hbot hunsafe => ?_⟩
  · have hiff (i : Nat) : MentionAt t bot i ↔ StandsAlone t bot i :=
      (mentionAt_iff hsafe.ne_nil).trans (and_iff_right hsafe)
    simp only [nextMention?_eq_some_iff, nextMention?_eq_none_iff, hiff, implies_true, true_and]
  · rw [nextMention?_eq_none_iff]
    intro i _ h
    exact hunsafe ((mentionAt_iff hbot).1 h).1

/-- A mail address and a longer handle are passed over. -/
theorem findMarker?_standsAlone_handle :
    WordSafe "bot".toList ∧
    IsLeast {i | 0 ≤ i ∧ StandsAlone "me@bot @bother @bot.".toList "bot".toList i} 15 := by
  have hsafe : WordSafe "bot".toList := by decide
  obtain ⟨-, hfound, -⟩ := findMarker?_standsAlone "me@bot @bother @bot.".toList "bot".toList 0
  exact ⟨hsafe, ((hfound hsafe).1 15).1 (by decide +kernel)⟩

end MentionCommands
