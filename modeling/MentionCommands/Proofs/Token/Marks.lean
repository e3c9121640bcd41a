/-
  Punctuation marks, told by what stands around them.

  A mark is part of a word, or a token of its own, or stands in a quoted text.

  * `EndsAt`: no word goes on at an offset; `takeWord_drop`: a scan for words may start anywhere in
    a word;
  * `TokenStream.Within` and `TokenStream.WordUpTo`: a token covers an offset, a word reaches up to
    one;
  * `TokenStream.marks_classified`: a mark is part of a word just if a word reaches up to it and
    would not end there.  A mark that starts a token is a token of its own, whatever stands behind
    it: `TokenStream.leading_mark_cut_off`.
-/
import MentionCommands.Proofs.Token.Tiling

namespace MentionCommands

/-- A word in front of an offset would end: the text ends there, or white space or a punctuation
    mark stands there. -/
def EndsAt (t : Text) (i : Nat) : Prop :=
  ∀ c, t[i]? = some c → isSpace c = true ∨ isPunctuation c = true

/-! ## Words -/

/-- **A scan for words may start anywhere in a word.** -/
theorem takeWord_drop {t w : Text} {j : Nat} (h : takeWord t = .ok w) (hj : j ≤ w.length) :
    takeWord (t.drop j) = .ok (w.drop j) := by
  induction j generalizing t w with
  | zero => exact h
  | succ j ih =>
    obtain ⟨c, w, rfl⟩ := List.exists_cons_of_length_pos (Nat.zero_lt_of_lt hj)
    obtain ⟨rest, rfl⟩ := isPrefix_of_takeWord h
    obtain ⟨-, -, -, htail⟩ := takeWord_cons h
    exact ih htail (Nat.le_of_succ_le_succ hj)

/-- Where a mark stands, no word goes on just if it would end behind the mark. -/
theorem takeWord_drop_mark_iff {t : Text} {i : Nat} {c : Char} {kind : TokenKind}
    (hc : t[i]? = some c) (hkind : punctuation? c = some kind) :
    takeWord (t.drop i) = .ok [] ↔ EndsAt t (i + 1) := by
  have hmark : isPunctuation c = true := Option.isSome_of_eq_some hkind
  simp only [takeWord_drop_eq_nil_iff, hc, Option.some.injEq, forall_eq',
    isSpace_of_punctuation? hkind, hmark, Bool.false_eq_true, false_or, true_and, EndsAt]

/-! ## Tokens that cover an offset -/

/-- Each character of a tiled text that is no blank is covered by a token. -/
theorem Tiles.exists_cover {t : Text} {p q i : Nat} {ks : List Token} {c : Char}
    (h : Tiles t p ks q) (hp : p ≤ i) (hq : i < q) (hc : t[i]? = some c)
    (hblank : isBlank c = false) : ∃ k ∈ ks, k.start ≤ i ∧ i < k.stop := by
  induction h with
  | nil => omega
  | @cons p q k ks hle hlt hgap hsource hrest ih =>
    by_cases hstop : k.stop ≤ i
    · obtain ⟨j, hj, hcover⟩ := ih hstop hq
      exact ⟨j, List.mem_cons_of_mem k hj, hcover⟩
    · refine ⟨k, List.mem_cons_self, Nat.not_lt.1 fun hstart => ?_, Nat.not_le.1 hstop⟩
      have hget : (t.slice p k.start)[i - p]? = some c := by
        rw [Text.slice, List.getElem?_take_of_lt (by omega), List.getElem?_drop,
          Nat.add_sub_cancel' hp, hc]
      have hmem := List.all_eq_true.1 hgap c (List.mem_of_getElem? hget)
      rw [hblank] at hmem
      cases hmem

namespace TokenStream

variable {s : TokenStream} {k : Token} {i : Nat} {c : Char} {kind : TokenKind}

/-- A token of a kind covers an offset. -/
def Within (s : TokenStream) (kind : TokenKind) (i : Nat) : Prop :=
  ∃ k ∈ s.tokens, k.kind = kind ∧ k.start ≤ i ∧ i < k.stop

/-- A word reaches up to an offset: one of its characters stands right in front. -/
def WordUpTo (s : TokenStream) (i : Nat) : Prop :=
  ∃ k ∈ s.tokens, k.kind = .word ∧ k.start < i ∧ i ≤ k.stop

/-- Two tokens that cover one offset are the same. -/
theorem eq_of_cover {j k : Token} (hj : j ∈ s.tokens) (hk : k ∈ s.tokens)
    (hji : j.start ≤ i ∧ i < j.stop) (hki : k.start ≤ i ∧ i < k.stop) : j = k :=
  s.reads_tokens.tiles.stacked.eq_of_cover hj hk hji hki

/-- What a token covers is part of it. -/
theorem mem_source_of_cover (hk : k ∈ s.tokens) (hstart : k.start ≤ i) (hstop : i < k.stop)
    (hc : s.text[i]? = some c) : c ∈ k.source := by
  obtain ⟨behind, hbehind⟩ := (s.reads_tokens.leads k hk).isPrefix
  have hget : (s.text.drop k.start)[i - k.start]? = some c := by
    rw [List.getElem?_drop, Nat.add_sub_cancel' hstart, hc]
  rw [← hbehind, List.getElem?_append_left (by rw [Token.stop] at hstop; omega)] at hget
  exact List.mem_of_getElem? hget

/-- A word in which an offset lies goes on there with the rest of it. -/
theorem takeWord_of_word (hk : k ∈ s.tokens) (hword : k.kind = .word) (hstart : k.start ≤ i)
    (hstop : i ≤ k.stop) : takeWord (s.text.drop i) = .ok (k.source.drop (i - k.start)) := by
  have hleads := s.reads_tokens.leads k hk
  rw [hword] at hleads
  have hinside : i - k.start ≤ k.source.length := Nat.sub_le_iff_le_add'.2 hstop
  have htail := takeWord_drop hleads.of_word.1 hinside
  rwa [List.drop_drop, Nat.add_sub_cancel' hstart] at htail

/-- A word takes the mark up to which it reaches just if it would not end with it. -/
theorem lt_stop_iff (hk : k ∈ s.tokens) (hword : k.kind = .word) (hstart : k.start ≤ i)
    (hstop : i ≤ k.stop) (hc : s.text[i]? = some c) (hkind : punctuation? c = some kind) :
    i < k.stop ↔ ¬ EndsAt s.text (i + 1) := by
  rw [← takeWord_drop_mark_iff hc hkind, takeWord_of_word hk hword hstart hstop, Except.ok.injEq,
    List.drop_eq_nil_iff, Token.stop]
  omega

/-- **A mark is part of a word just if a word reaches up to it and would not end with it.** -/
theorem within_word_iff (hc : s.text[i]? = some c) (hkind : punctuation? c = some kind) :
    s.Within .word i ↔ s.WordUpTo i ∧ ¬ EndsAt s.text (i + 1) := by
  constructor
  · rintro ⟨k, hk, hword, hstart, hstop⟩
    have hfront : k.start ≠ i := by
      rintro rfl
      have hleads := s.reads_tokens.leads k hk
      rw [hword] at hleads
      have hplain := hleads.of_word.2 c (by rw [List.head?_drop, hc])
      cases hplain.symm.trans hkind
    exact ⟨⟨k, hk, hword, hstart.lt_of_ne hfront, hstop.le⟩,
      (lt_stop_iff hk hword hstart hstop.le hc hkind).1 hstop⟩
  · rintro ⟨⟨k, hk, hword, hstart, hstop⟩, hends⟩
    exact ⟨k, hk, hword, hstart.le, (lt_stop_iff hk hword hstart.le hstop hc hkind).2 hends⟩

/-- A token of a mark's kind is the mark at its place. -/
theorem source_of_mark (hk : k ∈ s.tokens) (hmark : k.kind.isMark = true) :
    ∃ c, s.text[k.start]? = some c ∧ punctuation? c = some k.kind ∧ k.source = [c] := by
  obtain ⟨c, hhead, hkind, hsource⟩ := (s.reads_tokens.leads k hk).of_mark hmark
  rw [List.head?_drop] at hhead
  exact ⟨c, hhead, hkind, hsource⟩

/-- A token of a mark's kind that covers a mark is this mark. -/
theorem eq_of_mark (hk : k ∈ s.tokens) (hmark : k.kind.isMark = true) (hstart : k.start ≤ i)
    (hstop : i < k.stop) (hc : s.text[i]? = some c) (hkind : punctuation? c = some kind) :
    k = ⟨kind, i, [c]⟩ := by
  obtain ⟨d, hd, hkind', hsource⟩ := source_of_mark hk hmark
  obtain ⟨kind', start, source⟩ := k
  obtain rfl : source = [d] := hsource
  obtain rfl : start = i := by
    simp only [Token.stop, List.length_singleton] at hstart hstop
    omega
  cases hd.symm.trans hc
  cases hkind'.symm.trans hkind
  rfl

/-- A mark is a token of its own just if it lies in no word and in no quoted text. -/
theorem mem_tokens_iff (hc : s.text[i]? = some c) (hkind : punctuation? c = some kind)
    (hle : s.position ≤ i) (hlt : i < s.exhaust.position) :
    ⟨kind, i, [c]⟩ ∈ s.tokens ↔ ¬ s.Within .word i ∧ ¬ s.Within .quote i := by
  have hmark := isMark_of_punctuation? hkind
  constructor
  · intro hmem
    have hno (other : TokenKind) (hother : other.isMark = false) : ¬ s.Within other i := by
      rintro ⟨k, hk, rfl, hcover⟩
      obtain rfl := eq_of_cover hmem hk ⟨Nat.le_refl i, Nat.lt_succ_self i⟩ hcover
      cases hother.symm.trans hmark
    exact ⟨hno .word rfl, hno .quote rfl⟩
  · rintro ⟨hword, hquote⟩
    have hspace := isSpace_of_punctuation? hkind
    obtain ⟨k, hk, hcover⟩ := s.reads_tokens.tiles.exists_cover hle hlt hc
      (by rw [isBlank, hspace, Bool.false_and])
    rcases k.kind.isMark_cases with hk' | hk' | hk' | hk'
    · exact absurd ⟨k, hk, hk', hcover⟩ hword
    · exact absurd ⟨k, hk, hk', hcover⟩ hquote
    · have hall := List.all_eq_true.1 (s.reads_tokens.isLineEnd k hk hk').space
      have hspace' := hall c (mem_source_of_cover hk hcover.1 hcover.2 hc)
      cases hspace.symm.trans hspace'
    · rwa [eq_of_mark hk hk' hcover.1 hcover.2 hc hkind] at hk

/-- **A mark is part of a word just if a word reaches up to it and would not end with it**; it is a
    token of its own just if it is neither part of a word nor of a quoted text.  So a mark right
    behind a word is a token of its own just if the text ends behind it, or white space or another
    mark follows; anywhere else outside words and quoted texts it is one, whatever follows. -/
theorem marks_classified (s : TokenStream) :
    (∀ k ∈ s.tokens, k.kind.isMark = true →
      ∃ c, s.text[k.start]? = some c ∧ punctuation? c = some k.kind ∧ k.source = [c]) ∧
    ∀ i c kind, s.text[i]? = some c → punctuation? c = some kind →
      (s.Within .word i ↔ s.WordUpTo i ∧ ¬ EndsAt s.text (i + 1)) ∧
      (s.position ≤ i → i < s.exhaust.position →
        (⟨kind, i, [c]⟩ ∈ s.tokens ↔ ¬ s.Within .word i ∧ ¬ s.Within .quote i)) :=
  ⟨fun _ => source_of_mark, fun _ _ _ hc hkind =>
    ⟨within_word_iff hc hkind, mem_tokens_iff hc hkind⟩⟩

/-- **A mark that starts a token is cut off**, also where no word would end behind it. -/
theorem leading_mark_cut_off :
    ¬ ∀ (s : TokenStream) (k : Token),
      k ∈ s.tokens → k.kind.isMark = true → EndsAt s.text k.stop := by
  intro h
  have hmem : ⟨.dot, 0, ['.']⟩ ∈ (ofText ".net".toList 0).tokens := by decide +kernel
  have hends := h _ _ hmem rfl 'n' rfl
  revert hends
  decide

end TokenStream

end MentionCommands
