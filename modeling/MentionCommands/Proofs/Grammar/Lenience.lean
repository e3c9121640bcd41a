/-
  Changes of labels that nobody means: lists that break off, and labels without a character.

  * `relabelGrammar_last_change`: separators may stand behind the last change, with no change behind
    them; they are then the last tokens in front of the one that closes the command, and only then
    the change is not the last one.  All other separators stand in front of a change;
  * `relabelGrammar_labels_ne_nil_iff`: a label is empty just if it stands between two double quotes
    with nothing between them; a word never gives an empty label.
-/
import MentionCommands.Proofs.Grammar.Relabeling

namespace MentionCommands

variable {s : TokenStream} {changes : List LabelChange}

/-- What a grammar has matched stands next in the stream. -/
theorem exists_relabeling_of_matched
    (h : (relabelGrammar.attempt s).verdict = .matched (.relabel changes)) :
    ∃ (r : Relabeling) (s' : TokenStream), r.Writes changes ∧ r.StandsIn s s' ∧
      s'.position = (relabelGrammar.attempt s).position := by
  obtain ⟨_, s', ⟨⟩, haccepts, hposition⟩ := (attempt_matched_iff (f := .relabel) rfl).1 ⟨h, rfl⟩
  obtain ⟨r, hwrites, hstands⟩ :=
    exists_relabelSpelling_iff.1 ((recognizes_readRelabeling changes s s').1 haccepts)
  exact ⟨r, s', hwrites, hstands, hposition⟩

/-! ## Separators behind the last change -/

/-- What parts a change from the next one. -/
def ListItem.separators (i : ListItem) : List Token := i.comma.toList ++ i.conjunction.toList

theorem ListItem.separators_eq_nil_iff (i : ListItem) :
    i.separators = [] ↔ i.comma = none ∧ i.conjunction = none := by
  simp [separators]

/-- The tokens of a command in front of the one that closes it. -/
def Relabeling.body (r : Relabeling) : List Token :=
  r.keyword :: r.noun :: (r.colon.toList ++ (r.announcement.toList ++
    (r.secondColon.toList ++ listTokens r.items)))

namespace Relabeling

variable {r : Relabeling} {s' : TokenStream} {items : List ListItem} {i : ListItem}

theorem tokens_eq (r : Relabeling) : r.tokens = r.body ++ r.closing.toList := by
  simp [tokens, behindColon, list, body]

theorem exists_body_eq (h : r.items = items ++ [i]) :
    ∃ lead, r.body = lead ++ i.change :: i.separators := by
  refine ⟨r.keyword :: r.noun :: (r.colon.toList ++ (r.announcement.toList ++
    (r.secondColon.toList ++ listTokens items))), ?_⟩
  simp [body, h, listTokens, ListItem.tokens, ListItem.separators]

theorem StandsIn.nodup_body (h : r.StandsIn s s') : r.body.Nodup := by
  have hnodup := h.1.nodup
  rw [tokens_eq] at hnodup
  exact (List.nodup_append.1 hnodup).1

end Relabeling

/-- Of different items, one is the last just if none stands behind it. -/
theorem getLast?_append_cons_eq_iff {α : Type} {lead behind : List α} {a : α}
    (h : (lead ++ a :: behind).Nodup) :
    (lead ++ a :: behind).getLast? = some a ↔ behind = [] := by
  have ha : a ∉ behind := (List.nodup_cons.1 (List.nodup_append.1 h).2.1).1
  constructor
  · intro hlast
    by_contra hbehind
    rw [List.getLast?_append_of_ne_nil _ (List.cons_ne_nil a behind),
      List.getLast?_cons_of_ne_nil hbehind] at hlast
    exact ha (List.mem_of_getLast? hlast)
  · rintro rfl
    exact List.getLast?_concat ..

/-- The last item writes the last change. -/
theorem ListWrites.exists_last {closing : Option Token} {items : List ListItem}
    (h : ListWrites closing items changes) (hne : items ≠ []) :
    ∃ front i c, items = front ++ [i] ∧ changes.getLast? = some c ∧ i.change.Writes c := by
  induction h with
  | nil => exact absurd rfl hne
  | @cons i items c cs hchange _ hrest ih =>
    cases hrest with
    | nil => exact ⟨[], i, c, rfl, rfl, hchange⟩
    | cons =>
      obtain ⟨front, j, d, hitems, hlast, hd⟩ := ih (List.cons_ne_nil _ _)
      refine ⟨i :: front, j, d, congrArg (i :: ·) hitems, ?_, hd⟩
      rw [List.getLast?_cons_cons]
      exact hlast

/-- **The last token in front of the end of a command is its last change, unless separators stand
    behind that one.**  They are read and dropped. -/
theorem relabelGrammar_last_change
    (h : (relabelGrammar.attempt s).verdict = .matched (.relabel changes)) :
    ∃ (r : Relabeling) (s' : TokenStream) (front : List ListItem) (i : ListItem) (c : LabelChange),
      r.Writes changes ∧ r.StandsIn s s' ∧
        s'.position = (relabelGrammar.attempt s).position ∧
      r.items = front ++ [i] ∧ changes.getLast? = some c ∧ i.change.Writes c ∧
      (r.body.getLast? = some i.change ↔ i.comma = none ∧ i.conjunction = none) := by
  obtain ⟨r, s', hwrites, hstands, hposition⟩ := exists_relabeling_of_matched h
  obtain ⟨front, i, c, hitems, hlast, hc⟩ := hwrites.items.exists_last hwrites.items_ne
  refine ⟨r, s', front, i, c, hwrites, hstands, hposition, hitems, hlast, hc, ?_⟩
  obtain ⟨lead, hbody⟩ := Relabeling.exists_body_eq hitems
  have hnodup := hstands.nodup_body
  rw [hbody] at hnodup ⊢
  rw [getLast?_append_cons_eq_iff hnodup, i.separators_eq_nil_iff]

/-- Here a comma and `and` stand behind the last change. -/
theorem relabelGrammar_last_change_and :
    ∃ (r : Relabeling) (s' : TokenStream) (front : List ListItem) (i : ListItem) (c : LabelChange),
      r.Writes [⟨.add, "a".toList⟩, ⟨.remove, "b".toList⟩] ∧
        r.StandsIn (.ofText "modify labels: a and -b, and; c".toList 0) s' ∧
        s'.position =
          (relabelGrammar.attempt (.ofText "modify labels: a and -b, and; c".toList 0)).position ∧
      r.items = front ++ [i] ∧
        [⟨.add, "a".toList⟩, ⟨.remove, "b".toList⟩].getLast? = some c ∧ i.change.Writes c ∧
      (r.body.getLast? = some i.change ↔ i.comma = none ∧ i.conjunction = none) :=
  relabelGrammar_last_change (by decide +kernel)

/-- **A comma may be the last token of a command**, which then has no change behind it. -/
theorem trailing_comma_matched :
    ∃ (s s' : TokenStream) (ts : List Token) (t : Token),
      s = .ofText "modify labels: +bug,".toList 0 ∧
      (relabelGrammar.attempt s).verdict = .matched (.relabel [⟨.add, "bug".toList⟩]) ∧
      s.Completes ts none s' ∧ s'.position = (relabelGrammar.attempt s).position ∧
      ts.getLast? = some t ∧ t.kind = .comma ∧ ∀ c, ¬ t.Writes c := by
  have hmatched : (relabelGrammar.attempt (.ofText "modify labels: +bug,".toList 0)).verdict =
        .matched (.relabel [⟨.add, "bug".toList⟩]) ∧
      (TokenStream.ofText "modify labels: +bug,".toList 0).exhaust.next = .ok none ∧
      (TokenStream.ofText "modify labels: +bug,".toList 0).exhaust.position =
        (relabelGrammar.attempt (.ofText "modify labels: +bug,".toList 0)).position ∧
      (TokenStream.ofText "modify labels: +bug,".toList 0).tokens.getLast? =
        some ⟨.comma, 19, [',']⟩ := by
    decide +kernel
  obtain ⟨hverdict, hend, hposition, hlast⟩ := hmatched
  have hreads := (TokenStream.ofText "modify labels: +bug,".toList 0).reads_tokens
  refine ⟨_, _, _, _, rfl, hverdict, ⟨?_, fun _ => hend⟩, hposition, hlast, rfl, ?_⟩
  · rwa [Option.toList_none, List.append_nil]
  · rintro c (hkind | ⟨hkind, -⟩ | ⟨hkind, -⟩ | ⟨hkind, -⟩) <;> cases hkind

/-! ## Empty labels -/

theorem replaceAll_eq_nil_iff {t target replacement : Text} (h : replacement ≠ []) :
    t.replaceAll target replacement = [] ↔ t = [] := by
  cases t with
  | nil => exact ⟨fun _ => rfl, fun _ => rfl⟩
  | cons c rest =>
    simp only [Text.replaceAll, Text.replaceFrom]
    split <;> simp [h]

theorem unescape_eq_nil_iff {t : Text} : unescape t = [] ↔ t = [] := by
  rw [unescape, replaceAll_eq_nil_iff (List.cons_ne_nil _ _),
    replaceAll_eq_nil_iff (List.cons_ne_nil _ _)]

/-- A token writes an empty label just if it is a quote without a character. -/
theorem Token.Writes.label_eq_nil_iff {t : Token} {c : LabelChange} (h : t.Writes c) :
    c.label = [] ↔ t.kind = .quote ∧ t.value = [] := by
  cases h with
  | quoted hkind => simp [hkind, unescape_eq_nil_iff]
  | added hkind _ hne => simp [hkind, hne]
  | removed hkind _ hne => simp [hkind, hne]
  | bare hkind => simp [hkind]

section
variable {closing : Option Token} {items : List ListItem} {i : ListItem} {c : LabelChange}

theorem ListWrites.exists_item (h : ListWrites closing items changes) (hc : c ∈ changes) :
    ∃ i ∈ items, i.change.Writes c := by
  induction h with
  | nil => cases hc
  | @cons i items d cs hchange _ _ ih =>
    rcases List.mem_cons.1 hc with rfl | hc
    · exact ⟨i, List.mem_cons_self, hchange⟩
    · obtain ⟨j, hj, hwrites⟩ := ih hc
      exact ⟨j, List.mem_cons_of_mem i hj, hwrites⟩

theorem ListWrites.exists_change (h : ListWrites closing items changes) (hi : i ∈ items) :
    ∃ c ∈ changes, i.change.Writes c ∧ ∃ behind, i.Parts behind := by
  induction h with
  | nil => cases hi
  | @cons j items c cs hchange hparts _ ih =>
    rcases List.mem_cons.1 hi with rfl | hi
    · exact ⟨c, List.mem_cons_self, hchange, _, hparts⟩
    · obtain ⟨d, hd, hwrites⟩ := ih hi
      exact ⟨d, List.mem_cons_of_mem c hd, hwrites⟩

end

/-! ### Where quotes stand -/

variable {t : Token}

theorem Token.kind_ne_quote_of_isTheWord {word : Text} (h : t.isTheWord word = true) :
    t.kind ≠ .quote := by
  simp only [isTheWord, isWord, Bool.and_eq_true, beq_iff_eq] at h
  simp [h.1]

theorem Token.kind_ne_quote_of_isColon (h : t.isColon = true) : t.kind ≠ .quote := by
  simp only [isColon, beq_iff_eq] at h
  simp [h]

theorem Fits.kind_ne_quote {p : Token → Bool} {slot : Option Token} {behind : List Token}
    (h : Fits p slot behind) (hp : ∀ t, p t = true → t.kind ≠ .quote) (ht : t ∈ slot.toList) :
    t.kind ≠ .quote := by
  cases slot with
  | none => cases ht
  | some u =>
    obtain rfl := List.mem_singleton.1 ht
    exact hp t h

/-- A quote in a command is one of its changes. -/
theorem Relabeling.Writes.exists_item_of_quote {r : Relabeling} (h : r.Writes changes)
    (ht : t ∈ r.tokens) (hquote : t.kind = .quote) : ∃ i ∈ r.items, i.change = t := by
  have hto : ∀ t : Token, t.isTheWord "to".toList = true → t.kind ≠ .quote := fun _ =>
    Token.kind_ne_quote_of_isTheWord
  simp only [tokens, behindColon, list, listTokens, List.mem_cons, List.mem_append,
    List.mem_flatMap, ListItem.tokens] at ht
  obtain rfl | rfl | ht | ht | ht | ⟨i, hi, rfl | ht | ht⟩ | ht := ht
  · exact absurd hquote (Token.kind_ne_quote_of_isTheWord h.keyword)
  · exact absurd hquote (Token.kind_ne_quote_of_isTheWord h.noun)
  · exact absurd hquote (h.colon.kind_ne_quote (fun _ => Token.kind_ne_quote_of_isColon) ht)
  · exact absurd hquote (h.announcement.kind_ne_quote hto ht)
  · exact absurd hquote (h.secondColon.kind_ne_quote (fun _ => Token.kind_ne_quote_of_isColon) ht)
  · exact ⟨i, hi, rfl⟩
  · obtain ⟨_, -, -, _, hparts⟩ := h.items.exists_change hi
    refine absurd hquote (hparts.comma.kind_ne_quote (fun u hu => ?_) ht)
    simp [eq_of_beq hu]
  · obtain ⟨_, -, -, _, hparts⟩ := h.items.exists_change hi
    exact absurd hquote
      (hparts.conjunction.kind_ne_quote (fun _ => Token.kind_ne_quote_of_isTheWord) ht)
  · have hend := h.closing t (Option.mem_toList.1 ht)
    simp [Token.isEnd, hquote] at hend

theorem Relabeling.change_mem_tokens (r : Relabeling) {i : ListItem} (hi : i ∈ r.items) :
    i.change ∈ r.tokens := by
  have hlist : i.change ∈ listTokens r.items := List.mem_flatMap.2 ⟨i, hi, List.mem_cons_self⟩
  simp [tokens, behindColon, list, hlist]

/-- **A command names an empty label just if it holds a quote without a character.** -/
theorem relabelGrammar_labels_ne_nil_iff
    (h : (relabelGrammar.attempt s).verdict = .matched (.relabel changes)) :
    ∃ (ts : List Token) (s' : TokenStream), s.Reads ts s' ∧
      s'.position = (relabelGrammar.attempt s).position ∧
      ((∀ c ∈ changes, c.label ≠ []) ↔ ∀ t ∈ ts, t.kind = .quote → t.value ≠ []) := by
  obtain ⟨r, s', hwrites, hstands, hposition⟩ := exists_relabeling_of_matched h
  refine ⟨r.tokens, s', hstands.1, hposition, ?_, ?_⟩
  · intro hlabels t ht hquote hvalue
    obtain ⟨i, hi, rfl⟩ := hwrites.exists_item_of_quote ht hquote
    obtain ⟨c, hc, hchange, -⟩ := hwrites.items.exists_change hi
    exact hlabels c hc (hchange.label_eq_nil_iff.2 ⟨hquote, hvalue⟩)
  · intro hquotes c hc hlabel
    obtain ⟨i, hi, hchange⟩ := hwrites.items.exists_item hc
    obtain ⟨hquote, hvalue⟩ := hchange.label_eq_nil_iff.1 hlabel
    exact hquotes i.change (r.change_mem_tokens hi) hquote hvalue

/-- Here the second of three labels is empty. -/
theorem relabelGrammar_labels_ne_nil_iff_quote :
    ∃ (ts : List Token) (s' : TokenStream),
      (TokenStream.ofText "modify labels: a, \"\" and -b.".toList 0).Reads ts s' ∧
      s'.position =
        (relabelGrammar.attempt (.ofText "modify labels: a, \"\" and -b.".toList 0)).position ∧
      ((∀ c ∈ [⟨.add, "a".toList⟩, ⟨.add, []⟩, (⟨.remove, "b".toList⟩ : LabelChange)],
        c.label ≠ []) ↔ ∀ t ∈ ts, t.kind = .quote → t.value ≠ []) :=
  relabelGrammar_labels_ne_nil_iff (by decide +kernel)

/-- **A quote without a character is taken for a label.** -/
theorem empty_label_matched :
    (relabelGrammar.attempt (.ofText "modify labels: \"\"".toList 0)).verdict =
        .matched (.relabel [⟨.add, []⟩]) ∧
      ¬ ∀ c ∈ [(⟨.add, []⟩ : LabelChange)], c.label ≠ [] :=
  ⟨by decide +kernel, by simp⟩

end MentionCommands
