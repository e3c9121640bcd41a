/-
  How far grammars read.

  * `Tokens.extent_ofText_le`: tokens do not reach beyond their text;
  * `IsBounded`: a reader reads no further than the tokens reach; every reader of this library is
    bounded, by way of one lemma for each combinator;
  * `Grammar.Proceeds`: a grammar leaves a stream neither before the place at which it took it over
    nor behind the end of the text; `proceeds_of_mem` shows it for the built-in and the sample
    grammars.
-/
import Mathlib.Data.Nat.Basic
import Mathlib.Order.Basic
import Mathlib.Tactic.SplitIfs
import MentionCommands.Grammar.BuiltIn
import MentionCommands.Grammar.Samples

namespace MentionCommands

/-! ## Tokens -/

namespace Lexeme

theorem stop_pos {t : Text} {k : Token} (h : ofText t = .token k) : 0 < k.stop := by
  obtain ⟨-, -, -, -, -, hne⟩ := eq_append_of_ofText h
  have := List.length_pos_iff.2 hne
  simp only [Token.stop]
  omega

theorem stop_le_length {t : Text} {k : Token} (h : ofText t = .token k) : k.stop ≤ t.length := by
  obtain ⟨gap, rest, rfl, hlen, -⟩ := eq_append_of_ofText h
  simp only [Token.stop, List.length_append]
  omega

end Lexeme

namespace Tokens

theorem extent_scan_le {skip : Nat} {t : Text} (h : skip ≤ t.length) :
    skip + (scan skip t).extent ≤ t.length := by
  fun_induction scan skip t with
  | case1 => simpa [extent] using h
  | case2 c rest skip ih =>
    have := ih (Nat.le_of_succ_le_succ h)
    simp only [List.length_cons]
    omega
  | case3 | case4 => simp [extent]
  | case5 c rest k hk ih =>
    have hpos := Lexeme.stop_pos hk
    have hle := Lexeme.stop_le_length hk
    simp only [List.length_cons] at hle
    have := ih (by omega)
    simp only [extent, List.length_cons]
    omega

/-- **Tokens do not reach beyond their text.** -/
theorem extent_ofText_le (t : Text) : (ofText t).extent ≤ t.length := by
  have := extent_scan_le (Nat.zero_le t.length)
  rwa [Nat.zero_add] at this

end Tokens

/-! ## Readers -/

/-- How many characters a reading has used. -/
def Reading.used {α : Type} : Reading α → Nat
  | .pass => 0
  | .accept _ used | .refuse _ used => used

/-- A reader reads no further than the tokens reach. -/
def IsBounded {α : Type} (read : Tokens → Reading α) : Prop :=
  ∀ tokens, (read tokens).used ≤ tokens.extent

section
variable {α β : Type} {read : Tokens → Reading α}

theorem Reading.used_map (f : α → β) (r : Reading α) : (r.map f).used = r.used := by
  cases r <;> rfl

theorem Reading.used_behind_le (n : Nat) (r : Reading α) : (r.behind n).used ≤ n + r.used := by
  cases r with
  | pass => exact Nat.zero_le _
  | accept | refuse => exact Nat.le_refl _

/-- What is read behind a token is bounded by all tokens. -/
theorem Reading.used_behind_next {t : Token} {rest : Tokens} {r : Reading α}
    (h : r.used ≤ rest.extent) : (r.behind t.stop).used ≤ (Tokens.next t rest).extent :=
  (used_behind_le _ _).trans (Nat.add_le_add_left h _)

theorem IsBounded.map (h : IsBounded read) (f : α → β) :
    IsBounded fun tokens => (read tokens).map f :=
  fun tokens => by rw [Reading.used_map]; exact h tokens

theorem IsBounded.readWord (h : IsBounded read) {word : Text} {otherwise : Reading α}
    (ho : otherwise.used = 0) : IsBounded (readWord word otherwise read) := by
  rintro (_ | _ | ⟨t, rest⟩)
  · exact ho.le
  · exact Nat.le_refl 0
  · simp only [MentionCommands.readWord]
    split
    · exact Reading.used_behind_next (h rest)
    · exact ho.le.trans (Nat.zero_le _)

theorem IsBounded.readOptional (h : IsBounded read) (p : Token → Bool) :
    IsBounded (readOptional p read) := by
  rintro (_ | _ | ⟨t, rest⟩)
  · exact h _
  · exact h _
  · simp only [MentionCommands.readOptional]
    split
    · exact Reading.used_behind_next (h rest)
    · exact h _

end

/-! ### Assignments -/

theorem isBounded_readEnd (a : Assignment) : IsBounded (readEnd a) := by
  rintro (_ | _ | ⟨t, rest⟩)
  · exact Nat.le_refl 0
  · exact Nat.le_refl 0
  · simp only [readEnd]
    split
    · exact Nat.le_add_right ..
    · exact Nat.zero_le _

theorem isBounded_readUser : IsBounded readUser := by
  rintro (_ | _ | ⟨t, rest⟩)
  · exact Nat.le_refl 0
  · exact Nat.le_refl 0
  · simp only [readUser]
    split
    · exact Nat.zero_le _
    · split
      · exact Nat.zero_le _
      · exact Reading.used_behind_next (isBounded_readEnd _ rest)

theorem isBounded_readAssignment : IsBounded readAssignment := by
  rintro (_ | _ | ⟨t, rest⟩)
  · exact Nat.le_refl 0
  · exact Nat.le_refl 0
  · simp only [readAssignment]
    split_ifs
    · exact Reading.used_behind_next (isBounded_readEnd _ rest)
    · exact Reading.used_behind_next (isBounded_readEnd _ rest)
    · exact Reading.used_behind_next (isBounded_readUser.readOptional _ rest)
    · exact Nat.zero_le _

/-! ### Changes of labels -/

theorem isBounded_readChanges (phase : ListPhase) : IsBounded (readChanges phase) := by
  intro tokens
  induction tokens generalizing phase with
  | finish => simp only [readChanges]; split <;> exact Nat.le_refl 0
  | fault => exact Nat.le_refl 0
  | next t rest ih =>
    simp only [readChanges]
    split_ifs
    · exact Reading.used_behind_next (ih .comma)
    · exact Reading.used_behind_next (ih .conjunction)
    · exact Nat.le_add_right ..
    · split
      · exact Nat.zero_le _
      · refine Reading.used_behind_next ?_
        rw [Reading.used_map]
        exact ih .change

theorem used_refuseRemovals_le (announced : Bool) (r : Reading (List LabelChange)) :
    (refuseRemovals announced r).used ≤ r.used := by
  cases r with
  | accept => simp only [refuseRemovals]; split <;> simp [Reading.fail, Reading.used]
  | pass | refuse => exact Nat.le_refl _

theorem isBounded_readList : IsBounded readList := by
  refine IsBounded.readOptional (fun tokens => ?_) Token.isColon
  refine IsBounded.readOptional (IsBounded.readOptional (fun list => ?_) Token.isColon) _ tokens
  exact (used_refuseRemovals_le _ _).trans (isBounded_readChanges .opening list)

theorem isBounded_readRelabeling : IsBounded readRelabeling :=
  (isBounded_readList.readWord rfl).readWord rfl

/-! ### Samples -/

theorem isBounded_readThrough : IsBounded readThrough := by
  intro tokens
  induction tokens with
  | finish | fault => exact Nat.le_refl 0
  | next t rest ih =>
    simp only [readThrough]
    split
    · exact Nat.le_add_right ..
    · exact Reading.used_behind_next ih

theorem isBounded_readNothing : IsBounded readNothing := by
  rintro (_ | _ | ⟨t, rest⟩) <;> exact Nat.zero_le _

theorem isBounded_readToken : IsBounded readToken := by
  rintro (_ | _ | ⟨t, rest⟩)
  · exact Nat.le_refl 0
  · exact Nat.le_refl 0
  · exact Nat.le_add_right ..

/-! ## Grammars -/

/-- A grammar leaves a stream between the place at which it took it over and the end of the
    text. -/
def Grammar.Proceeds (g : Grammar) : Prop :=
  ∀ s : TokenStream, s.position ≤ s.text.length →
    s.position ≤ (g.attempt s).position ∧ (g.attempt s).position ≤ s.text.length

theorem Reading.position_parse (s : TokenStream) (r : Reading Command) :
    (r.parse s).position = s.position + r.used := by
  cases r <;> rfl

theorem proceeds_of_isBounded {g : Grammar} {read : Tokens → Reading Command}
    (hg : g.parse = parseTokens read) (h : IsBounded read) : g.Proceeds := by
  intro s hs
  have hpos : (g.attempt s).position = s.position + (read s.ahead).used := by
    rw [Grammar.attempt, hg]
    exact Reading.position_parse s _
  have hread := (h s.ahead).trans (Tokens.extent_ofText_le s.remaining)
  rw [TokenStream.remaining, List.length_drop] at hread
  omega

theorem proceeds_of_mem_builtInGrammars {g : Grammar} (h : g ∈ builtInGrammars) : g.Proceeds := by
  simp only [builtInGrammars, List.mem_cons, List.not_mem_nil, or_false] at h
  rcases h with rfl | rfl
  · exact proceeds_of_isBounded rfl (isBounded_readAssignment.map _)
  · exact proceeds_of_isBounded rfl (isBounded_readRelabeling.map _)

theorem Grammar.IsSample.proceeds {g : Grammar} (h : g.IsSample) : g.Proceeds := by
  cases h with
  | modify => exact proceeds_of_isBounded rfl (isBounded_readThrough.readWord rfl)
  | ping => exact proceeds_of_isBounded rfl (isBounded_readNothing.readWord rfl)
  | lexing => exact proceeds_of_isBounded rfl isBounded_readToken
  | silent =>
    have hpass : IsBounded fun _ => (Reading.pass : Reading Command) := fun _ => Nat.zero_le _
    exact proceeds_of_isBounded rfl hpass

end MentionCommands
