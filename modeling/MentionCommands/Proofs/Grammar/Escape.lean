/-
  Escaped texts, as they stand between double quotes.

  * `unescape_backslashes`, `unescape_quote` and `unescape_cons`: what the two passes of `unescape`
    make of the front of a text;
  * `resolveEscapes`: a text without its escapes, read once from left to right;
    `unescape_eq_resolveEscapes`: the two passes do just that, whatever the text is;
  * `escape` puts a backslash in front of every backslash and every double quote;
    `unescape_escape`: unescaping undoes it;
  * `takeQuote?_escape`: an escaped text closes just at the double quote behind it;
  * `inQuotes`: a label as it is written between double quotes; `next_inQuotes`: wherever it stands
    it is one token, and the token says the label.
-/
import Mathlib.Logic.Basic
import MentionCommands.Grammar.Relabel
import MentionCommands.Proofs.Token.Words

namespace MentionCommands

/-! ## Replacing two characters -/

namespace Text

variable {a b c : Char} {replacement t : Text}

theorem replaceAll_match (a b : Char) (replacement t : Text) :
    replaceAll (a :: b :: t) [a, b] replacement =
      replacement ++ replaceAll t [a, b] replacement := by
  have hprefix : [a, b].isPrefixOf (a :: b :: t) = true := by simp
  rw [replaceAll, replaceFrom, if_pos hprefix]
  rfl

/-- A character stays if no match starts with it. -/
theorem replaceAll_keep (h : c = a → t.head? ≠ some b) :
    replaceAll (c :: t) [a, b] replacement = c :: replaceAll t [a, b] replacement := by
  refine replaceFrom_eq_cons replacement fun hprefix => ?_
  obtain ⟨hc, behind, rfl⟩ := List.cons_prefix_cons.1 hprefix
  exact h hc.symm rfl

end Text

/-! ## Unescaping -/

/-- An escaped double quote loses its backslash, in the first pass. -/
theorem unescape_quote (t : Text) : unescape ('\\' :: '"' :: t) = '"' :: unescape t := by
  rw [unescape, Text.replaceAll_match]
  exact Text.replaceAll_keep fun hquote => absurd hquote (by decide)

/-- A character stays, unless it is a backslash in front of another one or of a double quote. -/
theorem unescape_cons {c : Char} {t : Text}
    (h : c = '\\' → t.head? ≠ some '\\' ∧ t.head? ≠ some '"') :
    unescape (c :: t) = c :: unescape t := by
  rw [unescape, Text.replaceAll_keep fun hc => (h hc).2]
  refine Text.replaceAll_keep fun hc => ?_
  -- the first pass brings no backslash to the front of the rest
  cases t with
  | nil => exact nofun
  | cons d t =>
    have hd : d ≠ '\\' := fun hd => (h hc).1 (congrArg some hd)
    rw [Text.replaceAll_keep fun hd' => absurd hd' hd]
    exact fun hd' => hd (Option.some.inj hd')

/-- A double backslash becomes single, also if the second one stands in front of a double quote. -/
theorem unescape_backslashes (t : Text) : unescape ('\\' :: '\\' :: t) = '\\' :: unescape t := by
  have hfirst : Text.replaceAll ('\\' :: '\\' :: t) ['\\', '"'] ['"'] =
      '\\' :: Text.replaceAll ('\\' :: t) ['\\', '"'] ['"'] :=
    Text.replaceAll_keep fun _ => by simp
  rw [unescape, hfirst]
  by_cases hquote : t.head? = some '"'
  · -- the first pass takes the second backslash away, and the second pass finds no pair
    obtain ⟨t, rfl⟩ := List.head?_eq_some_iff.1 hquote
    have hkept : Text.replaceAll ('"' :: t) ['\\', '"'] ['"'] =
        '"' :: Text.replaceAll t ['\\', '"'] ['"'] :=
      Text.replaceAll_keep fun hslash => absurd hslash (by decide)
    rw [unescape, Text.replaceAll_match, List.singleton_append, hkept]
    exact Text.replaceAll_keep fun _ => by simp
  · rw [Text.replaceAll_keep fun _ => hquote, Text.replaceAll_match]
    rfl

/-- A text without its escapes, read once from left to right: of a backslash in front of a backslash
    or a double quote only the second character stays; every other character stays. -/
def resolveEscapes : Text → Text
  | [] => []
  | '\\' :: '\\' :: rest => '\\' :: resolveEscapes rest
  | '\\' :: '"' :: rest => '"' :: resolveEscapes rest
  | c :: rest => c :: resolveEscapes rest

/-- **Two passes over a text resolve its escapes as one reading does.** -/
theorem unescape_eq_resolveEscapes (t : Text) : unescape t = resolveEscapes t := by
  fun_induction resolveEscapes t with
  | case1 => rfl
  | case2 rest ih => rw [unescape_backslashes, ih]
  | case3 rest ih => rw [unescape_quote, ih]
  | case4 c rest hslash hquote ih =>
    rw [unescape_cons fun hc => ⟨fun hrest => ?_, fun hrest => ?_⟩, ih]
    · obtain ⟨behind, rfl⟩ := List.head?_eq_some_iff.1 hrest
      exact hslash behind hc rfl
    · obtain ⟨behind, rfl⟩ := List.head?_eq_some_iff.1 hrest
      exact hquote behind hc rfl

/-! ## Escaping -/

/-- A character with a backslash in front of it, if it needs one. -/
def escapeChar (c : Char) : Text := if c = '\\' ∨ c = '"' then ['\\', c] else [c]

/-- A text with a backslash in front of every backslash and every double quote. -/
def escape (t : Text) : Text := t.flatMap escapeChar

theorem escape_cons (c : Char) (t : Text) : escape (c :: t) = escapeChar c ++ escape t := rfl

/-- **Unescaping undoes escaping.** -/
theorem unescape_escape (t : Text) : unescape (escape t) = t := by
  induction t with
  | nil => rfl
  | cons c t ih =>
    rw [escape_cons, escapeChar]
    split
    · rename_i hc
      rcases hc with rfl | rfl
      · exact (unescape_backslashes _).trans (congrArg ('\\' :: ·) ih)
      · exact (unescape_quote _).trans (congrArg ('"' :: ·) ih)
    · rename_i hc
      rw [List.singleton_append, unescape_cons fun hslash => absurd (Or.inl hslash) hc, ih]

/-! ## Closing quotes -/

/-- **An escaped text closes at the double quote behind it**, and at none of its own. -/
theorem takeQuote?_escape (t rest : Text) :
    takeQuote? (escape t ++ '"' :: rest) = some (escape t ++ ['"']) := by
  induction t with
  | nil => exact takeQuote?_quote rest
  | cons c t ih =>
    rw [escape_cons, escapeChar]
    split
    · show takeQuote? ('\\' :: c :: (escape t ++ '"' :: rest)) = _
      rw [takeQuote?_backslash, ih]
      rfl
    · rename_i hc
      obtain ⟨hslash, hquote⟩ := not_or.1 hc
      rw [List.singleton_append, List.cons_append, takeQuote?_cons hquote hslash, ih]
      rfl

/-! ## Labels in quotes -/

/-- A text between double quotes, with a backslash in front of each of its own backslashes and
    double quotes. -/
def inQuotes (t : Text) : Text := '"' :: (escape t ++ ['"'])

theorem ofText_inQuotes (label rest : Text) :
    Lexeme.ofText (inQuotes label ++ rest) = .token ⟨.quote, 0, inQuotes label⟩ := by
  refine Lexeme.ofText_quote ?_
  show takeQuote? (escape label ++ ['"'] ++ rest) = _
  rw [List.append_assoc]
  exact takeQuote?_escape label rest

theorem unescape_value_inQuotes (start : Nat) (label : Text) :
    unescape (Token.mk .quote start (inQuotes label)).value = label := by
  have hvalue : (Token.mk .quote start (inQuotes label)).value = escape label :=
    List.dropLast_concat
  rw [hvalue, unescape_escape]

theorem change?_inQuotes (start : Nat) (label : Text) :
    (Token.mk .quote start (inQuotes label)).change? = .ok ⟨.add, label⟩ :=
  congrArg (fun text => Except.ok (LabelChange.mk .add text)) (unescape_value_inQuotes start label)

/-- **A label in quotes is one token, and the token says the label**, whatever stands in front and
    behind: the token covers just the quotes and what is between them, its value without the
    escapes is the label, and the change that it writes adds the label. -/
theorem next_inQuotes (front label rest : Text) :
    ∃ (k : Token) (s : TokenStream),
      (TokenStream.ofText (front ++ inQuotes label ++ rest) front.length).next =
        .ok (some (k, s)) ∧
      k.kind = .quote ∧ k.start = front.length ∧ k.source = inQuotes label ∧
      s.position = k.stop ∧ s.remaining = rest ∧
      unescape k.value = label ∧ k.change? = .ok ⟨.add, label⟩ := by
  have hremaining : (TokenStream.ofText (front ++ inQuotes label ++ rest) front.length).remaining =
      inQuotes label ++ rest := by
    show (front ++ inQuotes label ++ rest).drop front.length = _
    rw [List.append_assoc, List.drop_left]
  rw [TokenStream.next, hremaining, ofText_inQuotes]
  refine ⟨_, _, rfl, rfl, rfl, rfl, (Token.stop_shift ..).symm, ?_,
    unescape_value_inQuotes _ label, change?_inQuotes _ label⟩
  show (front ++ inQuotes label ++ rest).drop (front.length + (0 + (inQuotes label).length)) = rest
  rw [Nat.zero_add, ← List.length_append, List.drop_left]

end MentionCommands
