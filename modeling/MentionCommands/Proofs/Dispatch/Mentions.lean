/-
  The search for mentions finds the first one.

  * `MentionAt`: a mention of the bot stands at an offset;
  * `nextMention?_eq_some_iff`: what the search finds is the least offset from the cursor on at
    which a mention stands, and it finds one if there is one (`nextMention?_eq_none_iff`);
  * `occurrence?_cases`: the mark of the bot is found where it occurs first, mention or not.
-/
import Mathlib.Data.Nat.Find
import Mathlib.Order.Bounds.Basic
import MentionCommands.Dispatch.Mention

namespace MentionCommands

/-- A mention of the bot stands at an offset: no word goes on into it, and the token that starts
    there is the mark of the bot. -/
structure MentionAt (t bot : Text) (i : Nat) : Prop where
  free : ∀ j c, i = j + 1 → t[j]? = some c → continuesWord c = false
  token : Lexeme.ofText (t.drop i) = .token ⟨.word, 0, marker bot⟩

theorem MentionAt.drop_eq {t bot : Text} {i : Nat} (h : MentionAt t bot i) :
    ∃ rest, t.drop i = marker bot ++ rest := by
  obtain ⟨gap, rest, ht, hlen, -⟩ := Lexeme.eq_append_of_ofText h.token
  rw [List.eq_nil_of_length_eq_zero hlen, List.nil_append] at ht
  exact ⟨rest, ht⟩

theorem MentionAt.add_le_length {t bot : Text} {i : Nat} (h : MentionAt t bot i) :
    i + (marker bot).length ≤ t.length := by
  obtain ⟨rest, ht⟩ := h.drop_eq
  have := congrArg List.length ht
  simp only [List.length_drop, List.length_append, marker, List.length_cons] at this ⊢
  omega

theorem charBefore?_succ {t : Text} {j : Nat} (h : j < t.length) :
    charBefore? t (j + 1) = t[j]? := by
  rw [charBefore?, List.getLast?_take, if_neg (Nat.succ_ne_zero j), Nat.add_sub_cancel,
    List.getElem?_eq_getElem h, Option.some_or]

/-- The test of the search is that a mention stands at the offset. -/
theorem isMention_iff {t : Text} {i : Nat} (hi : i < t.length) (bot : Text) :
    isMention (marker bot) (charBefore? t i) (t.drop i) = true ↔ MentionAt t bot i := by
  have hfree : (charBefore? t i).any continuesWord = false ↔
      ∀ j c, i = j + 1 → t[j]? = some c → continuesWord c = false := by
    cases i with
    | zero => simp [charBefore?]
    | succ j =>
      rw [charBefore?_succ (Nat.lt_of_succ_lt hi)]
      constructor
      · rintro h _ c ⟨⟩ hc
        simpa [hc] using h
      · intro h
        rw [List.getElem?_eq_getElem (Nat.lt_of_succ_lt hi), Option.any_some]
        exact h j _ rfl (List.getElem?_eq_getElem _)
  simp only [isMention, Bool.and_eq_true, Bool.not_eq_true', beq_iff_eq, hfree]
  constructor
  · rintro ⟨⟨-, h⟩, h'⟩
    exact ⟨h, h'⟩
  · intro h
    obtain ⟨rest, ht⟩ := h.drop_eq
    exact ⟨⟨by simp [ht], h.free⟩, h.token⟩

/-- What the search finds passes the test, and nothing before it does. -/
theorem findMention?_eq_some_iff {t bot : Text} {cursor i : Nat} :
    findMention? (marker bot) (charBefore? t cursor) (t.drop cursor) = some i ↔
      MentionAt t bot (cursor + i) ∧ ∀ j < i, ¬ MentionAt t bot (cursor + j) := by
  -- the text ahead gets shorter while the cursor moves on, so that it stays what is ahead
  generalize hs : t.drop cursor = s
  induction s generalizing cursor i with
  | nil =>
    have hlen := List.drop_eq_nil_iff.1 hs
    refine iff_of_false (by simp [findMention?]) fun h => ?_
    have := h.1.add_le_length
    simp only [marker, List.length_cons] at this
    omega
  | cons c s ih =>
    have hlt : cursor < t.length := by
      have := congrArg List.length hs
      simp only [List.length_drop, List.length_cons] at this
      omega
    have hdrop : t.drop (cursor + 1) = s := by rw [← List.drop_drop, hs]; rfl
    have hc : t[cursor]? = some c := by
      rw [← List.head?_drop, hs]
      rfl
    have hbefore : charBefore? t (cursor + 1) = some c := (charBefore?_succ hlt).trans hc
    rw [findMention?, ← hs, ← hbefore]
    by_cases h : MentionAt t bot cursor
    · rw [if_pos ((isMention_iff hlt bot).2 h)]
      constructor
      · rintro ⟨⟩
        exact ⟨h, fun j hj => absurd hj (Nat.not_lt_zero j)⟩
      · rintro ⟨-, hleast⟩
        by_contra hne
        exact hleast 0 (Nat.pos_of_ne_zero fun h0 => hne (by rw [h0])) h
    · rw [if_neg (fun h' => h ((isMention_iff hlt bot).1 h'))]
      cases i with
      | zero =>
        refine iff_of_false ?_ fun h' => h h'.1
        simp
      | succ i =>
        have hmap : (findMention? (marker bot) (charBefore? t (cursor + 1)) s).map (· + 1) =
            some (i + 1) ↔
              findMention? (marker bot) (charBefore? t (cursor + 1)) s = some i := by simp
        have hleast : (∀ j < i + 1, ¬ MentionAt t bot (cursor + j)) ↔
            ∀ j < i, ¬ MentionAt t bot (cursor + (j + 1)) := by
          rw [Nat.forall_lt_succ_left]
          exact and_iff_right h
        have hshift (j : Nat) : cursor + 1 + j = cursor + (j + 1) := by omega
        rw [hmap, ih hdrop, hleast]
        simp only [hshift]

/-- **The search finds the first mention** from the cursor on. -/
theorem nextMention?_eq_some_iff {t bot : Text} {cursor i : Nat} :
    nextMention? t bot cursor = some i ↔ IsLeast {i | cursor ≤ i ∧ MentionAt t bot i} i := by
  rw [nextMention?, Option.map_eq_some_iff]
  constructor
  · rintro ⟨k, hk, rfl⟩
    obtain ⟨hat, hleast⟩ := findMention?_eq_some_iff.1 hk
    refine ⟨⟨Nat.le_add_right .., hat⟩, ?_⟩
    rintro j ⟨hle, hj⟩
    by_contra hlt
    refine hleast (j - cursor) (by omega) ?_
    rwa [Nat.add_sub_cancel' hle]
  · rintro ⟨⟨hle, hat⟩, hleast⟩
    refine ⟨i - cursor, findMention?_eq_some_iff.2 ⟨?_, fun j hj hat' => ?_⟩,
      Nat.add_sub_cancel' hle⟩
    · rwa [Nat.add_sub_cancel' hle]
    · have := hleast ⟨Nat.le_add_right cursor j, hat'⟩
      omega

/-- The search finds nothing just if no mention stands from the cursor on. -/
theorem nextMention?_eq_none_iff {t bot : Text} {cursor : Nat} :
    nextMention? t bot cursor = none ↔ ∀ i, cursor ≤ i → ¬ MentionAt t bot i := by
  constructor
  · intro h i hi hat
    classical
    have hex : ∃ j, cursor ≤ j ∧ MentionAt t bot j := ⟨i, hi, hat⟩
    have hleast : IsLeast {i | cursor ≤ i ∧ MentionAt t bot i} (Nat.find hex) :=
      ⟨Nat.find_spec hex, fun j hj => Nat.find_min' hex hj⟩
    rw [nextMention?_eq_some_iff.2 hleast] at h
    cases h
  · intro h
    cases hm : nextMention? t bot cursor with
    | none => rfl
    | some i =>
      obtain ⟨⟨hle, hat⟩, -⟩ := nextMention?_eq_some_iff.1 hm
      exact absurd hat (h i hle)

/-- Where no mention stands the cursor may be moved on. -/
theorem nextMention?_eq_of_forall_not {t bot : Text} {cursor cursor' : Nat}
    (hle : cursor ≤ cursor') (h : ∀ i, cursor ≤ i → i < cursor' → ¬ MentionAt t bot i) :
    nextMention? t bot cursor = nextMention? t bot cursor' := by
  have hset : {i | cursor ≤ i ∧ MentionAt t bot i} = {i | cursor' ≤ i ∧ MentionAt t bot i} := by
    ext i
    constructor
    · rintro ⟨hi, hat⟩
      exact ⟨Nat.le_of_not_lt fun hlt => h i hi hlt hat, hat⟩
    · rintro ⟨hi, hat⟩
      exact ⟨hle.trans hi, hat⟩
  ext i
  simp only [nextMention?_eq_some_iff, hset]

/-! ## Occurrences -/

theorem indexOf?_cases {target : Text} (hne : target ≠ []) (t : Text) :
    (Text.indexOf? target t = none ∧ ∀ i, ¬ target <+: t.drop i) ∨
    ∃ found, Text.indexOf? target t = some found ∧ target <+: t.drop found ∧
      ∀ i < found, ¬ target <+: t.drop i := by
  induction t with
  | nil =>
    refine Or.inl ⟨by simp [Text.indexOf?, hne], fun i h => hne ?_⟩
    rwa [List.drop_nil, List.prefix_nil] at h
  | cons c t ih =>
    by_cases hc : target <+: c :: t
    · exact Or.inr ⟨0, by rw [Text.indexOf?, if_pos (List.isPrefixOf_iff_prefix.2 hc)], hc,
        fun i hi => absurd hi (Nat.not_lt_zero i)⟩
    · have hstep : Text.indexOf? target (c :: t) = (Text.indexOf? target t).map (· + 1) := by
        rw [Text.indexOf?, if_neg fun h => hc (List.isPrefixOf_iff_prefix.1 h)]
      rcases ih with ⟨hnone, hnot⟩ | ⟨found, hsome, hfound, hnot⟩
      · refine Or.inl ⟨by rw [hstep, hnone]; rfl, ?_⟩
        rintro (_ | i)
        · exact hc
        · exact hnot i
      · refine Or.inr ⟨found + 1, by rw [hstep, hsome]; rfl, hfound, ?_⟩
        rintro (_ | i) hi
        · exact hc
        · exact hnot i (Nat.lt_of_succ_lt_succ hi)

/-- **The mark is found where it occurs first**, or it does not occur from the start on. -/
theorem occurrence?_cases (t bot : Text) (start : Nat) :
    (occurrence? t bot start = none ∧ ∀ i, start ≤ i → ¬ marker bot <+: t.drop i) ∨
    ∃ found, occurrence? t bot start = some found ∧ start ≤ found ∧
      marker bot <+: t.drop found ∧ ∀ i, start ≤ i → i < found → ¬ marker bot <+: t.drop i := by
  have hstart : occurrence? t bot start =
      (Text.indexOf? (marker bot) (t.drop start)).map (start + ·) := by
    simp [occurrence?, Int.not_lt.2 (Int.natCast_nonneg start)]
  have hcases := indexOf?_cases (List.cons_ne_nil '@' bot) (t.drop start)
  simp only [List.drop_drop] at hcases
  rcases hcases with ⟨hnone, hnot⟩ | ⟨found, hsome, hfound, hnot⟩
  · refine Or.inl ⟨by rw [hstart, marker, hnone]; rfl, fun i hi => ?_⟩
    obtain ⟨k, rfl⟩ := Nat.exists_eq_add_of_le hi
    exact hnot k
  · refine Or.inr ⟨start + found, by rw [hstart, marker, hsome]; rfl, Nat.le_add_right .., hfound,
      fun i hi hlt => ?_⟩
    obtain ⟨k, rfl⟩ := Nat.exists_eq_add_of_le hi
    exact hnot k (Nat.lt_of_add_lt_add_left hlt)

end MentionCommands
