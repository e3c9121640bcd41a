/-
  The tokens of a text tile it.

  Reading goes on until the text ends or a token cannot be cut off.  Up to there nothing is lost and
  nothing is read twice: tokens follow each other, with nothing but blanks in front of each.

  * `Tiles t p ks q`: the tokens `ks`, with blanks in front of them, make up the text `t` from `p`
    up to `q`;
  * `TokenStream.Reads.tiles`: so do the tokens that a stream reads one after another;
    `TokenStream.Reads.leads`: each of them leads the text from its place on;
  * `TokenStream.Reads.isChain`: no line end follows another, since each of them reaches to the last
    line break of its white space;
  * `TokenStream.tokens_tile`: both for all tokens ahead of a stream, and what stands behind them.
-/
import MentionCommands.Proofs.Grammar.Language
import MentionCommands.Proofs.Text.Stacked
import MentionCommands.Proofs.Token.Leading

namespace MentionCommands

/-! ## Line ends -/

/-- A line end starts and ends with a line break, and is white space all through. -/
structure IsLineEnd (source : Text) : Prop where
  first : source.head?.any isLineBreak = true
  last : source.getLast?.any isLineBreak = true
  space : source.all isSpace = true

/-- What is taken of white space ends with a line break. -/
theorem isLineBreak_getLast?_takeBreaks (t : Text) :
    ∀ c ∈ (takeBreaks t).getLast?, isLineBreak c = true := by
  fun_induction takeBreaks t with
  | case1 | case3 | case5 => intro c hc; cases hc
  | case2 c rest _ _ hbreak => simpa using hbreak
  | case4 c rest _ hne ih =>
    obtain ⟨d, taken, htaken⟩ := List.exists_cons_of_ne_nil hne
    rw [htaken] at ih ⊢
    rwa [List.getLast?_cons_cons]

theorem all_isSpace_takeBreaks (t : Text) : (takeBreaks t).all isSpace = true := by
  fun_induction takeBreaks t with
  | case1 | case3 | case5 => rfl
  | case2 c rest hspace => simpa using hspace
  | case4 c rest hspace _ ih => simp [hspace, ih]

theorem isLineEnd_takeBreaks {c : Char} (h : isLineBreak c = true) (rest : Text) :
    IsLineEnd (takeBreaks (c :: rest)) := by
  have hlast := isLineBreak_getLast?_takeBreaks (c :: rest)
  have hspace := all_isSpace_takeBreaks (c :: rest)
  rw [takeBreaks_break h] at hlast hspace ⊢
  refine ⟨by simpa using h, ?_, hspace⟩
  rw [List.getLast?_cons] at hlast ⊢
  exact hlast _ rfl

/-- **Behind what is taken there is no line break** before the next character that is no white
    space. -/
theorem takeBreaks_drop (t : Text) : takeBreaks (t.drop (takeBreaks t).length) = [] := by
  fun_induction takeBreaks t with
  | case1 => rfl
  | case2 c rest _ hrest _ => exact hrest
  | case3 c rest hspace hrest hbreak =>
    show takeBreaks (c :: rest) = []
    rw [takeBreaks, if_pos hspace, hrest]
    exact if_neg hbreak
  | case4 c rest _ _ ih => exact ih
  | case5 c rest hspace =>
    show takeBreaks (c :: rest) = []
    rw [takeBreaks, if_neg hspace]

/-- Blanks in front of white space do not hide a line break in it. -/
theorem takeBreaks_of_blanks {gap t : Text} (hgap : gap.all isBlank = true)
    (h : takeBreaks (gap ++ t) = []) : takeBreaks t = [] := by
  induction gap with
  | nil => exact h
  | cons c gap ih =>
    rw [List.all_cons, Bool.and_eq_true, isBlank, Bool.and_eq_true] at hgap
    obtain ⟨⟨hspace, -⟩, hgap⟩ := hgap
    rw [List.cons_append, takeBreaks, if_pos hspace] at h
    refine ih hgap ?_
    cases hrest : takeBreaks (gap ++ t) with
    | nil => rfl
    | cons d taken =>
      rw [hrest] at h
      cases h

/-! ## What is cut off -/

namespace Lexeme

variable {t : Text} {k : Token}

/-- **A line end is cut off at the first character behind the blanks**, if that is a line break. -/
theorem exists_of_endOfLine (h : ofText t = token k) (hk : k.kind = .endOfLine) :
    ∃ gap c rest, t = gap ++ c :: rest ∧ gap.all isBlank = true ∧ isLineBreak c = true ∧
      k = ⟨.endOfLine, gap.length, takeBreaks (c :: rest)⟩ := by
  obtain ⟨gap, _, rfl, hgap, hlength, hleads⟩ := exists_leads_of_ofText h
  obtain ⟨kind, start, source⟩ := k
  obtain rfl : kind = .endOfLine := hk
  obtain rfl : gap.length = start := hlength
  obtain ⟨c, rest, rfl, hbreak, hsource⟩ := hleads.of_lineEnd
  obtain rfl : source = takeBreaks (c :: rest) := hsource
  exact ⟨gap, c, rest, rfl, hgap, hbreak, rfl⟩

/-- Where the white space holds no line break, no line end is cut off. -/
theorem kind_ne_of_takeBreaks (h : ofText t = token k) (ht : takeBreaks t = []) :
    k.kind ≠ .endOfLine := by
  intro hk
  obtain ⟨gap, c, rest, rfl, hgap, hbreak, -⟩ := exists_of_endOfLine h hk
  have hrest := takeBreaks_of_blanks hgap ht
  rw [takeBreaks_break hbreak] at hrest
  cases hrest

/-- Behind a line end the white space holds no line break. -/
theorem takeBreaks_drop_stop (h : ofText t = token k) (hk : k.kind = .endOfLine) :
    takeBreaks (t.drop k.stop) = [] := by
  obtain ⟨gap, c, rest, rfl, -, -, rfl⟩ := exists_of_endOfLine h hk
  show takeBreaks ((gap ++ c :: rest).drop (gap.length + (takeBreaks (c :: rest)).length)) = []
  rw [← List.drop_drop, List.drop_left]
  exact takeBreaks_drop (c :: rest)

theorem all_isBlank_of_finished (h : ofText t = finished) : t.all isBlank = true := by
  fun_induction ofText t with
  | case1 => rfl
  | case2 c rest hblank ih =>
    cases hl : ofText rest with
    | finished => simp [hblank, ih hl]
    | fault | token =>
      rw [hl] at h
      cases h
  | case3 | case4 | case5 | case6 | case7 | case8 => cases h

end Lexeme

/-! ## Tilings -/

/-- Tokens make up a text from one offset up to another: each stands where it says, is not empty,
    and has nothing but blanks in front of it. -/
inductive Tiles (t : Text) : Nat → List Token → Nat → Prop
  | nil (p : Nat) : Tiles t p [] p
  | cons {p q : Nat} {k : Token} {ks : List Token} (hle : p ≤ k.start) (hlt : k.start < k.stop)
      (hgap : (t.slice p k.start).all isBlank = true) (hsource : t.slice k.start k.stop = k.source)
      (hrest : Tiles t k.stop ks q) : Tiles t p (k :: ks) q

namespace Tiles

variable {t : Text} {p q : Nat} {ks : List Token}

/-- The tokens of a tiling lie in the text, one behind the other. -/
theorem stacked (h : Tiles t p ks q) : Stacked Token.start Token.stop p t.length ks := by
  induction h with
  | nil => exact .nil
  | @cons p q k ks hle hlt _ hsource _ ih =>
    refine .cons hle hlt ?_ ih
    have hlength := congrArg List.length hsource
    rw [Text.length_slice] at hlength
    simp only [Token.stop] at hlt hlength ⊢
    omega

/-- A tiling ends with its last token. -/
theorem eq_getLast? (h : Tiles t p ks q) : q = (ks.getLast?.map Token.stop).getD p := by
  induction h with
  | nil => rfl
  | @cons p q k ks _ _ _ _ _ ih =>
    rw [ih, List.getLast?_cons]
    cases ks.getLast? <;> rfl

/-- A token of a tiling is written as it stands in the text. -/
theorem slice_of_mem (h : Tiles t p ks q) : ∀ k ∈ ks, t.slice k.start k.stop = k.source := by
  induction h with
  | nil => exact nofun
  | cons _ _ _ hsource _ ih => exact List.forall_mem_cons.2 ⟨hsource, ih⟩

end Tiles

namespace TokenStream

variable {s s' : TokenStream} {k : Token} {ts : List Token}

theorem text_of_next (h : s.next = .ok (some (k, s'))) : s'.text = s.text := by
  obtain ⟨j, -, -, rfl⟩ := next_eq_some_iff.1 h
  rfl

/-- **A step of reading** takes a token and the blanks in front of it. -/
theorem tiles_of_next (h : s.next = .ok (some (k, s'))) :
    Tiles s.text s.position [k] s'.position := by
  obtain ⟨j, hj, rfl, rfl⟩ := next_eq_some_iff.1 h
  obtain ⟨gap, rest, ht, hlength, hblank, hne⟩ := Lexeme.eq_append_of_ofText hj
  have hslice (a b : Nat) : s.text.slice (s.position + a) (s.position + b) =
      s.remaining.slice a b := by
    rw [Text.slice, Text.slice, remaining, List.drop_drop, Nat.add_sub_add_left]
  have hstop : (j.shift s.position).stop = s.position + j.stop := Token.stop_shift ..
  have hsource := List.length_pos_iff.2 hne
  refine .cons (Nat.le_add_right ..) ?_ ?_ ?_ ?_
  · rw [hstop, Token.stop]
    exact Nat.add_lt_add_left (Nat.lt_add_of_pos_right hsource) _
  · show (s.text.slice (s.position + 0) (s.position + j.start)).all isBlank = true
    rw [hslice, Text.slice_zero, ht, ← hlength, List.append_assoc, List.take_left]
    exact hblank
  · rw [hstop]
    show s.text.slice (s.position + j.start) (s.position + j.stop) = j.source
    rw [hslice, Text.slice, Token.stop, Nat.add_sub_cancel_left, ht, ← hlength, List.append_assoc,
      List.drop_left, List.take_left]
  · rw [hstop]
    exact .nil _

/-- **What a stream reads tiles its text** from where it stood up to where it stands. -/
theorem Reads.tiles (h : s.Reads ts s') : Tiles s.text s.position ts s'.position := by
  induction h with
  | nil s => exact .nil s.position
  | @cons s s₁ s' k ts hnext hrest ih =>
    rw [text_of_next hnext] at ih
    cases tiles_of_next hnext with
    | cons hle hlt hgap hsource hend =>
      rw [hend.eq_getLast?] at ih
      exact .cons hle hlt hgap hsource ih

/-- **Each token that is read leads the text from its place on.** -/
theorem Reads.leads (h : s.Reads ts s') :
    ∀ k ∈ ts, Leads (s.text.drop k.start) k.kind k.source := by
  induction h with
  | nil => exact nofun
  | @cons s _ _ _ _ hnext _ ih =>
    rw [text_of_next hnext] at ih
    refine List.forall_mem_cons.2 ⟨?_, ih⟩
    obtain ⟨k, hk, rfl, -⟩ := next_eq_some_iff.1 hnext
    obtain ⟨gap, rest, hremaining, -, hlength, hleads⟩ := exists_leads_of_ofText hk
    show Leads (s.text.drop (s.position + k.start)) k.kind k.source
    rw [← List.drop_drop, ← remaining, hremaining, ← hlength, List.drop_left]
    exact hleads

theorem Reads.isLineEnd (h : s.Reads ts s') :
    ∀ k ∈ ts, k.kind = .endOfLine → IsLineEnd k.source := by
  intro k hk hkind
  have hleads := h.leads k hk
  rw [hkind] at hleads
  obtain ⟨c, rest, -, hbreak, hsource⟩ := hleads.of_lineEnd
  rw [hsource]
  exact isLineEnd_takeBreaks hbreak rest

/-- Behind a line end no other one is read. -/
theorem kind_ne_of_next {k' : Token} {s'' : TokenStream} (h : s.next = .ok (some (k, s')))
    (h' : s'.next = .ok (some (k', s''))) (hk : k.kind = .endOfLine) : k'.kind ≠ .endOfLine := by
  obtain ⟨j, hj, rfl, rfl⟩ := next_eq_some_iff.1 h
  obtain ⟨j', hj', rfl, -⟩ := next_eq_some_iff.1 h'
  refine Lexeme.kind_ne_of_takeBreaks (k := j') hj' ?_
  have hdrop := Lexeme.takeBreaks_drop_stop hj hk
  rwa [remaining, List.drop_drop] at hdrop

/-- **No two line ends follow each other.** -/
theorem Reads.isChain (h : s.Reads ts s') :
    ts.IsChain fun k k' => k.kind = .endOfLine → k'.kind ≠ .endOfLine := by
  induction h with
  | nil => exact .nil
  | cons hnext hrest ih =>
    cases hrest with
    | nil => exact .singleton _
    | cons hnext' _ => exact .cons_cons (kind_ne_of_next hnext hnext') ih

/-- Behind its first token a stream ends where it ends, and at the same fault. -/
theorem exhaust_of_ahead_next
    (h : s.ahead = .next k (s.restore (s.position + k.stop)).ahead) :
    s.exhaust = (s.restore (s.position + k.stop)).exhaust ∧
      s.fault? = (s.restore (s.position + k.stop)).fault? := by
  constructor
  · rw [exhaust, exhaust, h]
    show s.restore (s.position + (k.stop + _)) = s.restore (s.position + k.stop + _)
    rw [Nat.add_assoc]
  · rw [fault?, fault?, h, Tokens.fault?, Option.map_map]
    congr 1
    funext found
    obtain ⟨reason, offset⟩ := found
    show Diagnostic.ofLexFault reason s.text (s.position + (k.stop + offset)) =
      Diagnostic.ofLexFault reason s.text (s.position + k.stop + offset)
    rw [Nat.add_assoc]

/-- **Behind all tokens ahead** the text ends, or a token cannot be cut off. -/
theorem next_exhaust (s : TokenStream) : s.exhaust.next = match s.fault? with
    | none => .ok none
    | some error => .error error := by
  induction hahead : s.ahead generalizing s with
  | finish =>
    rw [exhaust, fault?, hahead]
    rcases s.next_cases with ⟨hnext, -⟩ | ⟨_, _, -, hahead'⟩ | ⟨_, -, hahead'⟩
    · exact hnext
    · cases hahead.symm.trans hahead'
    · cases hahead.symm.trans hahead'
  | fault reason offset =>
    rw [exhaust, fault?, hahead]
    rcases s.next_cases with ⟨-, hahead'⟩ | ⟨_, _, hnext, hahead'⟩ | ⟨_, -, hahead'⟩
    · cases hahead.symm.trans hahead'
    · cases hahead.symm.trans hahead'
      exact hnext
    · cases hahead.symm.trans hahead'
  | next k rest ih =>
    rcases s.next_cases with ⟨-, hahead'⟩ | ⟨_, _, -, hahead'⟩ | ⟨_, -, hahead'⟩
    · cases hahead.symm.trans hahead'
    · cases hahead.symm.trans hahead'
    · cases hahead.symm.trans hahead'
      obtain ⟨hexhaust, hfault⟩ := exhaust_of_ahead_next hahead
      rw [hexhaust, hfault]
      exact ih _ rfl

theorem all_isBlank_of_next (h : s.next = .ok none) : s.remaining.all isBlank = true := by
  unfold next at h
  cases hl : Lexeme.ofText s.remaining with
  | finished => exact Lexeme.all_isBlank_of_finished hl
  | fault | token =>
    rw [hl] at h
    cases h

/-- **The tokens ahead of a stream tile the text.** -/
theorem tokens_tile (s : TokenStream) :
    s.Reads s.tokens s.exhaust ∧
    Tiles s.text s.position s.tokens s.exhaust.position ∧
    Stacked Token.start Token.stop s.position s.text.length s.tokens ∧
    s.exhaust.position = (s.tokens.getLast?.map Token.stop).getD s.position ∧
    (∀ k ∈ s.tokens, k.kind = .endOfLine → IsLineEnd k.source) ∧
    (s.tokens.IsChain fun k k' => k.kind = .endOfLine → k'.kind ≠ .endOfLine) ∧
    match s.fault? with
    | none => s.exhaust.next = .ok none ∧ s.exhaust.remaining.all isBlank = true
    | some error => s.exhaust.next = .error error := by
  have h := s.reads_tokens
  refine ⟨h, h.tiles, h.tiles.stacked, h.tiles.eq_getLast?, h.isLineEnd, h.isChain, ?_⟩
  have hnext := s.next_exhaust
  cases hfault : s.fault? with
  | none =>
    rw [hfault] at hnext
    exact ⟨hnext, all_isBlank_of_next hnext⟩
  | some error =>
    rw [hfault] at hnext
    exact hnext

end TokenStream

end MentionCommands
