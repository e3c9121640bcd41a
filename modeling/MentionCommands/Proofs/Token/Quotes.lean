/-
  Where quoted texts close.

  The scan for a closing double quote jumps over the character behind a backslash.  Which double
  quotes it jumps over is told by the backslashes in front of each: they stand in pairs, so a double
  quote behind an odd number of them is jumped over, and one behind an even number is not.

  * `slashes`: the backslashes at the end of a text;
  * `ClosesAt u j`: in a text that follows an opening double quote, a double quote stands at an
    offset behind an even number of backslashes; `closesAt_escape_iff` and `closesAt_cons_iff` are
    the two jumps of the scan;
  * `takeQuote?_cases`: the scan stops at the least such offset, or there is none;
  * `TokenStream.quote_closes`: the same for offsets of a whole text, for the loop that looks the
    characters up by index, and for the token that a stream cuts off.
-/
import Mathlib.Algebra.Group.Nat.Even
import Mathlib.Order.Bounds.Basic
import MentionCommands.Proofs.Indexed.Token
import MentionCommands.Proofs.Token.Words

namespace MentionCommands

/-! ## Backslashes at the end of a text -/

/-- A run at the front of a text goes on behind it only if it is all of the text. -/
theorem Text.run_append (c : Char) (t u : Text) :
    run c (t ++ u) = if run c t = t.length then t.length + run c u else run c t := by
  rw [run, List.takeWhile_append]
  by_cases hall : run c t = t.length
  · have hall' : (t.takeWhile (· == c)).length = t.length := hall
    rw [if_pos hall, if_pos hall', List.length_append, run]
  · have hall' : (t.takeWhile (· == c)).length ≠ t.length := hall
    rw [if_neg hall, if_neg hall', run]

/-- How many backslashes stand at the end of a text, one behind another. -/
def slashes (t : Text) : Nat := Text.run '\\' t.reverse

theorem slashes_cons {c : Char} (h : c ≠ '\\') (t : Text) : slashes (c :: t) = slashes t := by
  have hrun : Text.run '\\' [c] = 0 := by simp [Text.run, h]
  rw [slashes, List.reverse_cons, Text.run_append, hrun, slashes]
  split_ifs with hall
  · exact hall.symm
  · rfl

/-- A backslash and the character behind it do not change whether the backslashes at the end come in
    pairs. -/
theorem even_slashes_escape (c : Char) (t : Text) :
    Even (slashes ('\\' :: c :: t)) ↔ Even (slashes t) := by
  have hreverse : ('\\' :: c :: t).reverse = t.reverse ++ [c, '\\'] := by simp
  rw [slashes, hreverse, Text.run_append, slashes]
  split_ifs with hall
  · -- all of the text behind the pair is backslashes, so the pair counts if it is one of them
    rw [← hall]
    by_cases hc : c = '\\'
    · have hpair : Text.run '\\' [c, '\\'] = 2 := by simp [Text.run, hc]
      rw [hpair, Nat.even_add]
      exact iff_true_right (by decide)
    · have hpair : Text.run '\\' [c, '\\'] = 0 := by simp [Text.run, hc]
      rw [hpair, Nat.add_zero]
  · rfl

/-! ## Closing quotes -/

/-- A double quote stands at an offset, behind an even number of backslashes. -/
def ClosesAt (u : Text) (j : Nat) : Prop := u[j]? = some '"' ∧ Even (slashes (u.take j))

section
variable {c : Char} {u : Text} {j : Nat}

theorem not_closesAt_nil : ¬ ClosesAt [] j := by
  rintro ⟨hquote, -⟩
  cases hquote

theorem closesAt_quote (u : Text) : ClosesAt ('"' :: u) 0 := ⟨rfl, Even.zero⟩

/-- A backslash keeps itself and the next character from closing, and nothing else. -/
theorem closesAt_escape_iff : ClosesAt ('\\' :: c :: u) j ↔ ∃ k, j = k + 2 ∧ ClosesAt u k := by
  constructor
  · rintro ⟨hquote, heven⟩
    match j with
    | 0 => cases hquote
    | 1 =>
      have hone : ¬ Even (slashes ['\\']) := by decide
      exact absurd heven hone
    | k + 2 => exact ⟨k, rfl, hquote, (even_slashes_escape c _).1 heven⟩
  · rintro ⟨k, rfl, hquote, heven⟩
    exact ⟨hquote, (even_slashes_escape c _).2 heven⟩

/-- A backslash at the end of a text closes nothing. -/
theorem not_closesAt_slash : ¬ ClosesAt ['\\'] j := by
  rintro ⟨hquote, -⟩
  match j with
  | 0 => cases hquote
  | j + 1 => cases hquote

theorem closesAt_cons_iff (hquote : c ≠ '"') (hslash : c ≠ '\\') :
    ClosesAt (c :: u) j ↔ ∃ k, j = k + 1 ∧ ClosesAt u k := by
  constructor
  · rintro ⟨hj, heven⟩
    match j with
    | 0 => exact absurd (Option.some.inj hj) hquote
    | k + 1 =>
      rw [List.take_succ_cons, slashes_cons hslash] at heven
      exact ⟨k, rfl, hj, heven⟩
  · rintro ⟨k, rfl, hk, heven⟩
    refine ⟨hk, ?_⟩
    rwa [List.take_succ_cons, slashes_cons hslash]

/-- Offsets that are all moved by as much have the same least one, moved as well. -/
theorem isLeast_add {P Q : Nat → Prop} {k n : Nat} (hP : ∀ j, P j ↔ ∃ i, j = i + n ∧ Q i)
    (h : IsLeast {i | Q i} k) : IsLeast {j | P j} (k + n) := by
  refine ⟨(hP _).2 ⟨k, rfl, h.1⟩, fun j hj => ?_⟩
  obtain ⟨i, rfl, hi⟩ := (hP j).1 hj
  exact Nat.add_le_add_right (h.2 hi) n

/-- **The scan stops at the first double quote behind an even number of backslashes**, and fails if
    there is none. -/
theorem takeQuote?_cases (u : Text) :
    (takeQuote? u = none ∧ ∀ j, ¬ ClosesAt u j) ∨
      ∃ j, takeQuote? u = some (u.take (j + 1)) ∧ IsLeast {j | ClosesAt u j} j := by
  fun_induction takeQuote? u with
  | case1 => exact Or.inl ⟨rfl, fun _ => not_closesAt_nil⟩
  | case2 rest => exact Or.inr ⟨0, rfl, closesAt_quote rest, fun j _ => Nat.zero_le j⟩
  | case3 => exact Or.inl ⟨rfl, fun _ => not_closesAt_slash⟩
  | case4 d rest _ ih =>
    rcases ih with ⟨hnone, hno⟩ | ⟨k, hsome, hleast⟩
    · rw [hnone]
      refine Or.inl ⟨rfl, fun j hj => ?_⟩
      obtain ⟨k, -, hk⟩ := closesAt_escape_iff.1 hj
      exact hno k hk
    · rw [hsome]
      exact Or.inr ⟨k + 2, rfl, isLeast_add (fun _ => closesAt_escape_iff) hleast⟩
  | case5 c rest hquote hslash ih =>
    rcases ih with ⟨hnone, hno⟩ | ⟨k, hsome, hleast⟩
    · rw [hnone]
      refine Or.inl ⟨rfl, fun j hj => ?_⟩
      obtain ⟨k, -, hk⟩ := (closesAt_cons_iff hquote hslash).1 hj
      exact hno k hk
    · rw [hsome]
      exact Or.inr ⟨k + 1, rfl, isLeast_add (fun _ => closesAt_cons_iff hquote hslash) hleast⟩

end

/-! ## Quoted texts in a text -/

/-- A double quote at `j` closes a quoted text that a double quote at `i` opens: it stands behind
    the opening one, and between them an even number of backslashes stands right in front of it. -/
structure Closes (t : Text) (i j : Nat) : Prop where
  lt : i < j
  quote : t[j]? = some '"'
  even : Even (slashes (t.slice (i + 1) j))

section
variable {t : Text} {i j : Nat}

theorem drop_of_getElem? {c : Char} (hc : t[i]? = some c) : t.drop i = c :: t.drop (i + 1) := by
  obtain ⟨hlt, hget⟩ := List.getElem?_eq_some_iff.1 hc
  rw [List.drop_eq_getElem_cons hlt, hget]

theorem closes_iff : Closes t i j ↔ ∃ k, j = k + (i + 1) ∧ ClosesAt (t.drop (i + 1)) k := by
  constructor
  · rintro ⟨hlt, hquote, heven⟩
    obtain ⟨k, rfl⟩ := Nat.exists_eq_add_of_le' hlt
    refine ⟨k, rfl, ?_, ?_⟩
    · rwa [List.getElem?_drop, Nat.add_comm]
    · rwa [Text.slice, Nat.add_sub_cancel] at heven
  · rintro ⟨k, rfl, hquote, heven⟩
    refine ⟨by omega, ?_, ?_⟩
    · rwa [List.getElem?_drop, Nat.add_comm] at hquote
    · rwa [Text.slice, Nat.add_sub_cancel]

/-- The scan behind an opening double quote stops behind the first one that closes. -/
theorem takeQuote?_drop_cases (t : Text) (i : Nat) :
    (takeQuote? (t.drop (i + 1)) = none ∧ ∀ j, ¬ Closes t i j) ∨
      ∃ j taken, takeQuote? (t.drop (i + 1)) = some taken ∧ i + 1 + taken.length = j + 1 ∧
        IsLeast {j | Closes t i j} j := by
  rcases takeQuote?_cases (t.drop (i + 1)) with ⟨hnone, hno⟩ | ⟨k, hsome, hleast⟩
  · refine Or.inl ⟨hnone, fun j hj => ?_⟩
    obtain ⟨k, -, hk⟩ := closes_iff.1 hj
    exact hno k hk
  · refine Or.inr ⟨k + (i + 1), _, hsome, ?_, isLeast_add (fun _ => closes_iff) hleast⟩
    obtain ⟨hk, -⟩ := List.getElem?_eq_some_iff.1 hleast.1.1
    rw [List.length_take, Nat.min_eq_left hk]
    omega

/-- The loop over the characters of a quoted text stops behind the first double quote that
    closes. -/
theorem quoteEnd?_cases (t : Text) (i : Nat) :
    (Indexed.Source.quoteEnd? t (i + 1) = some none ∧ ∀ j, ¬ Closes t i j) ∨
      ∃ j, Indexed.Source.quoteEnd? t (i + 1) = some (some (j + 1)) ∧
        IsLeast {j | Closes t i j} j := by
  rw [Indexed.quoteEnd?_eq]
  rcases takeQuote?_drop_cases t i with ⟨hnone, hno⟩ | ⟨j, taken, hsome, hstop, hleast⟩
  · exact Or.inl ⟨by rw [hnone]; rfl, hno⟩
  · exact Or.inr ⟨j, by rw [hsome, Option.map_some, hstop], hleast⟩

end

namespace TokenStream

variable {s : TokenStream}

/-- What a stream in front of a double quote reads: the quoted text up to the first double quote
    that closes, or a fault at the opening one. -/
theorem next_quote_cases (h : s.text[s.position]? = some '"') :
    (s.next = .error (.ofLexFault .unterminatedString s.text s.position) ∧
      ∀ j, ¬ Closes s.text s.position j) ∨
    ∃ j, s.next = .ok (some (⟨.quote, s.position, s.text.slice s.position (j + 1)⟩,
        s.restore (j + 1))) ∧ IsLeast {j | Closes s.text s.position j} j := by
  have hdrop := drop_of_getElem? h
  rw [next, remaining, hdrop]
  rcases takeQuote?_drop_cases s.text s.position with
    ⟨hnone, hno⟩ | ⟨j, taken, hsome, hstop, hleast⟩
  · rw [Lexeme.ofText_openQuote hnone]
    exact Or.inl ⟨rfl, hno⟩
  · have hslice := Indexed.slice_quote hdrop hsome
    rw [hstop] at hslice
    have hmoved : s.position + (0 + (taken.length + 1)) = j + 1 := by omega
    rw [Lexeme.ofText_quote hsome]
    refine Or.inr ⟨j, ?_, hleast⟩
    rw [hslice, ← hmoved]
    rfl

/-- **A quoted text closes at the first double quote that stands behind an even number of
    backslashes**: there the loop over its characters ends, and there the token ends that is cut off.
    The loop finds no end, and the text is a fault at the opening double quote, just if no double
    quote stands so. -/
theorem quote_closes (h : s.text[s.position]? = some '"') :
    (∀ stop, Indexed.Source.quoteEnd? s.text (s.position + 1) = some (some stop) ↔
      ∃ j, stop = j + 1 ∧ IsLeast {j | Closes s.text s.position j} j) ∧
    (Indexed.Source.quoteEnd? s.text (s.position + 1) = some none ↔
      ∀ j, ¬ Closes s.text s.position j) ∧
    (∀ k s', s.next = .ok (some (k, s')) ↔ ∃ j, IsLeast {j | Closes s.text s.position j} j ∧
      k = ⟨.quote, s.position, s.text.slice s.position (j + 1)⟩ ∧ s' = s.restore (j + 1)) ∧
    (s.next = .error (.ofLexFault .unterminatedString s.text s.position) ↔
      ∀ j, ¬ Closes s.text s.position j) := by
  rcases quoteEnd?_cases s.text s.position with ⟨hend, hno⟩ | ⟨j, hend, hleast⟩
  · obtain ⟨hnext, -⟩ | ⟨j, -, hleast⟩ := next_quote_cases h
    · rw [hend, hnext]
      refine ⟨fun stop => ⟨nofun, ?_⟩, ⟨fun _ => hno, fun _ => rfl⟩, fun k s' => ⟨nofun, ?_⟩,
        ⟨fun _ => hno, fun _ => rfl⟩⟩
      · rintro ⟨j, -, hleast⟩
        exact absurd hleast.1 (hno j)
      · rintro ⟨j, hleast, -⟩
        exact absurd hleast.1 (hno j)
    · exact absurd hleast.1 (hno j)
  · obtain ⟨-, hno⟩ | ⟨i, hnext, hleast'⟩ := next_quote_cases h
    · exact absurd hleast.1 (hno j)
    · obtain rfl := hleast.unique hleast'
      have hex : ¬ ∀ i, ¬ Closes s.text s.position i := fun hno => hno j hleast.1
      rw [hend, hnext]
      refine ⟨fun stop => ?_, ⟨nofun, fun hno => absurd hno hex⟩, fun k s' => ?_,
        ⟨nofun, fun hno => absurd hno hex⟩⟩
      · constructor
        · rintro ⟨⟩
          exact ⟨j, rfl, hleast⟩
        · rintro ⟨i, rfl, hi⟩
          rw [hleast.unique hi]
      · constructor
        · rintro ⟨⟩
          exact ⟨j, hleast, rfl, rfl⟩
        · rintro ⟨i, hi, rfl, rfl⟩
          rw [hleast.unique hi]

/-- A double quote behind one backslash does not close and one behind two does; nothing closes in a
    text that ends with a backslash. -/
theorem quote_closes_pairs :
    r#""\"\\" x""#.toList[0]? = some '"' ∧
    IsLeast {j | Closes r#""\"\\" x""#.toList 0 j} 5 ∧
    r#""ab\"#.toList[0]? = some '"' ∧
    ∀ j, ¬ Closes r#""ab\"#.toList 0 j := by
  have hclosed : (ofText r#""\"\\" x""#.toList 0).next = .ok (some
      (⟨.quote, 0, r#""\"\\""#.toList⟩, ⟨r#""\"\\" x""#.toList, 0, 6⟩)) := by
    decide +kernel
  have hopen : (ofText r#""ab\"#.toList 0).next =
      .error (.ofLexFault .unterminatedString r#""ab\"#.toList 0) := by
    decide +kernel
  obtain ⟨j, hleast, -, hstop⟩ :=
    ((quote_closes (s := ofText r#""\"\\" x""#.toList 0) rfl).2.2.1 _ _).1 hclosed
  obtain rfl : 5 = j := Nat.succ.inj (congrArg position hstop)
  exact ⟨rfl, hleast, rfl,
    (quote_closes (s := ofText r#""ab\"#.toList 0) rfl).2.2.2.1 hopen⟩

end TokenStream

end MentionCommands
