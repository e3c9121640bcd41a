/-
  Tokens that are written again, with one blank between any two.

  * `TokenStream.respaced`: the tokens ahead of a stream, joined by blanks;
  * `MaySpace`: tokens that are read back from such a text; `TokenStream.Reads.maySpace`: whatever a
    stream reads may be spaced, since a token's own characters decide how it is cut off and no line
    end follows another;
  * `TokenStream.tokens_respaced`: the tokens of the joined text are those of the stream, but for
    where they stand.
-/
import MentionCommands.Proofs.Token.Tiling

namespace MentionCommands

/-- What a token is, apart from its place: its kind, how it is written, and what it says. -/
def Token.content (k : Token) : TokenKind × Text × Text := (k.kind, k.source, k.value)

/-- The tokens ahead of a stream as they stand in its text, with a blank between any two. -/
def TokenStream.respaced (s : TokenStream) : Text :=
  Text.join [' '] (s.tokens.map fun k => s.text.slice k.start k.stop)

/-- Tokens as they are written, each behind a blank. -/
def spaced (ks : List Token) : Text := ks.flatMap fun k => ' ' :: k.source

/-- The tokens of such a text. -/
def Tokens.spaced : List Token → Tokens
  | [] => finish
  | k :: ks => next ⟨k.kind, 1, k.source⟩ (Tokens.spaced ks)

theorem join_source (k : Token) (ks : List Token) :
    Text.join [' '] ((k :: ks).map Token.source) = k.source ++ spaced ks := by
  induction ks generalizing k with
  | nil => exact (List.append_nil k.source).symm
  | cons k' ks ih =>
    show k.source ++ [' '] ++ Text.join [' '] ((k' :: ks).map Token.source) = _
    rw [ih, List.append_assoc]
    rfl

namespace Tokens

theorem fault?_spaced (ks : List Token) : (Tokens.spaced ks).fault? = none := by
  induction ks with
  | nil => rfl
  | cons k ks ih =>
    rw [Tokens.spaced, fault?, ih]
    rfl

theorem toList_spaced (ks : List Token) (offset : Nat) :
    ((Tokens.spaced ks).toList offset).map Token.content = ks.map Token.content := by
  induction ks generalizing offset with
  | nil => rfl
  | cons k ks ih =>
    rw [Tokens.spaced, toList, List.map_cons, List.map_cons, ih]
    rfl

end Tokens

/-- Tokens that are read back if blanks part them: each stands at the front of some text, and no
    line end follows another. -/
structure MaySpace (ks : List Token) : Prop where
  leads : ∀ k ∈ ks, ∃ t, Leads t k.kind k.source
  parted : ks.IsChain fun k k' => k.kind = .endOfLine → k'.kind ≠ .endOfLine

namespace MaySpace

variable {k : Token} {ks : List Token}

theorem tail (h : MaySpace (k :: ks)) : MaySpace ks :=
  ⟨fun j hj => h.leads j (List.mem_cons_of_mem k hj), h.parted.of_cons⟩

theorem takeWord_spaced (ks : List Token) : takeWord (spaced ks) = .ok [] := by
  cases ks with
  | nil => rfl
  | cons => exact takeWord_space rfl _

/-- Behind a line end the blank is followed by no line break. -/
theorem takeBreaks_spaced (h : MaySpace (k :: ks)) (hk : k.kind = .endOfLine) :
    takeBreaks (spaced ks) = [] := by
  cases ks with
  | nil => rfl
  | cons k' ks =>
    have hk' := (List.isChain_cons_cons.1 h.parted).1 hk
    obtain ⟨t, hleads⟩ := h.tail.leads k' List.mem_cons_self
    obtain ⟨c, w, hsource, hspace⟩ := hleads.exists_cons
    have hstop : takeBreaks (k'.source ++ spaced ks) = [] := by
      rw [hsource, List.cons_append, takeBreaks, hspace hk', if_neg Bool.false_ne_true]
    have hblank : isSpace ' ' = true := by decide
    have hbreak : ¬ isLineBreak ' ' = true := by decide
    show takeBreaks (' ' :: (k'.source ++ spaced ks)) = []
    rw [takeBreaks, if_pos hblank, hstop]
    exact if_neg hbreak

/-- **The first of the tokens is cut off as it was.** -/
theorem ofText_cons (h : MaySpace (k :: ks)) :
    Lexeme.ofText (k.source ++ spaced ks) = .token ⟨k.kind, 0, k.source⟩ := by
  obtain ⟨t, hleads⟩ := h.leads k List.mem_cons_self
  exact (hleads.append (takeWord_spaced ks) h.takeBreaks_spaced).ofText_eq

/-- **Tokens parted by blanks are read back.** -/
theorem ofText_spaced (h : MaySpace ks) : Tokens.ofText (spaced ks) = .spaced ks := by
  induction ks with
  | nil => rfl
  | cons k ks ih =>
    show Tokens.ofText (' ' :: (k.source ++ spaced ks)) = _
    rw [Tokens.ofText_blank h.ofText_cons, ih h.tail]
    rfl

/-- The same with no blank in front of the first one. -/
theorem ofText_join (h : MaySpace ks) :
    (Tokens.ofText (Text.join [' '] (ks.map Token.source))).fault? = none ∧
    ((Tokens.ofText (Text.join [' '] (ks.map Token.source))).toList 0).map Token.content =
      ks.map Token.content := by
  cases ks with
  | nil => exact ⟨rfl, rfl⟩
  | cons k ks =>
    have hfirst := Tokens.ofText_of_token h.ofText_cons
    rw [Token.stop, Nat.zero_add, List.drop_left, h.tail.ofText_spaced] at hfirst
    rw [join_source, hfirst]
    constructor
    · rw [Tokens.fault?, Tokens.fault?_spaced]
      rfl
    · rw [Tokens.toList, List.map_cons, Tokens.toList_spaced]
      rfl

end MaySpace

namespace TokenStream

variable {s s' : TokenStream} {ts : List Token}

theorem Reads.maySpace (h : s.Reads ts s') : MaySpace ts :=
  ⟨fun k hk => ⟨_, h.leads k hk⟩, h.isChain⟩

theorem respaced_eq (s : TokenStream) :
    s.respaced = Text.join [' '] (s.tokens.map Token.source) := by
  rw [respaced, List.map_congr_left s.reads_tokens.tiles.slice_of_mem]

/-- **Re-spacing keeps the tokens.**  What a stream reads, up to the end of the text or the first
    fault, is read again if it is written with one blank between any two tokens: the same kinds, the
    same characters and the same values in the same order, and no fault. -/
theorem tokens_respaced (s : TokenStream) :
    (ofText s.respaced 0).fault? = none ∧
    (ofText s.respaced 0).tokens.map Token.content = s.tokens.map Token.content := by
  obtain ⟨hfault, htokens⟩ := s.reads_tokens.maySpace.ofText_join
  rw [← s.respaced_eq] at hfault htokens
  refine ⟨?_, htokens⟩
  show Option.map _ (Tokens.ofText s.respaced).fault? = none
  rw [hfault]
  rfl

/-- Marks that touch words and each other are parted, and a blank behind a mark changes nothing. -/
example : (ofText "what?!  .net\n".toList 0).respaced = "what ? ! . net \n".toList := by
  decide +kernel

end TokenStream

end MentionCommands
