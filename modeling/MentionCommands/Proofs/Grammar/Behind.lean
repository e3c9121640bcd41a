/-
  Commands behind other text.

  * `TokenStream.behind`: a stream at the same place of its text, in front of which more text
    stands; the tokens ahead of it are the same (`ahead_behind`);
  * `Outcome.behind`: what a grammar says, with all offsets moved by the length of that text;
  * `attempt_behind`: what a grammar that reads tokens says of a command does not depend on the text
    in front of it;
  * `attempts_behind`: so it is with the built-in grammars, also where they look the characters of
    the text up by index.
-/
import MentionCommands.Proofs.Indexed.Session

namespace MentionCommands

/-! ## Text in front -/

/-- A failure in a text in front of which more text stands. -/
def Diagnostic.behind (u : Text) (d : Diagnostic) : Diagnostic :=
  { d with text := u ++ d.text, position := u.length + d.position }

/-- What is said about a command in front of which more text stands. -/
def Verdict.behind (u : Text) : Verdict → Verdict
  | notMine => notMine
  | matched command => matched command
  | rejected error => rejected (error.behind u)

/-- The outcome of an attempt in front of whose text more text stands. -/
def Outcome.behind (u : Text) (o : Outcome) : Outcome :=
  ⟨o.grammar, o.verdict.behind u, u.length + o.position⟩

/-- A stream in front of whose text more text stands. -/
def TokenStream.behind (u : Text) (s : TokenStream) : TokenStream :=
  ⟨u ++ s.text, u.length + s.start, u.length + s.position⟩

namespace TokenStream

variable (u : Text) (s : TokenStream)

theorem remaining_behind : (s.behind u).remaining = s.remaining := by
  show (u ++ s.text).drop (u.length + s.position) = s.text.drop s.position
  rw [← List.drop_drop, List.drop_left]

theorem ahead_behind : (s.behind u).ahead = s.ahead := by
  rw [ahead, remaining_behind, ahead]

theorem restore_behind (n : Nat) :
    (s.behind u).restore ((s.behind u).position + n) = (s.restore (s.position + n)).behind u := by
  simp only [behind, restore, Nat.add_assoc]

end TokenStream

/-! ## Attempts -/

section
variable (u : Text) (s : TokenStream)

theorem Refusal.diagnostic_behind (refusal : Refusal) :
    refusal.diagnostic (s.behind u) = (refusal.diagnostic s).behind u := by
  cases refusal with
  | grammatical reason => rfl
  | lexical reason offset =>
    simp only [diagnostic, TokenStream.lexicalFailure, Diagnostic.ofLexFault, Diagnostic.behind,
      TokenStream.behind, Nat.add_assoc]

/-- A verdict moves with its text: whether the stream has moved does not depend on where it was. -/
theorem Parse.verdict_behind {start position : Nat} (error : Diagnostic) :
    Parse.verdict (u.length + start) ⟨.error (error.behind u), u.length + position⟩ =
      (Parse.verdict start ⟨.error error, position⟩).behind u := by
  have hmoved : u.length + position = u.length + start ↔ position = start :=
    Nat.add_left_cancel_iff
  simp only [verdict, Diagnostic.behind, hmoved]
  split <;> rfl

theorem attempt_parse_behind (kind : Text) (r : Reading Command) :
    (⟨kind, (r.parse (s.behind u)).verdict (s.behind u).position,
      (r.parse (s.behind u)).position⟩ : Outcome) =
      Outcome.behind u ⟨kind, (r.parse s).verdict s.position, (r.parse s).position⟩ := by
  cases r with
  | pass => rfl
  | accept command used =>
    simp only [Reading.parse, Parse.verdict, Outcome.behind, Verdict.behind, TokenStream.behind,
      Nat.add_assoc]
  | refuse refusal used =>
    simp only [Reading.parse, TokenStream.restore_behind, Refusal.diagnostic_behind]
    show Outcome.mk kind _ (u.length + (s.position + used)) = Outcome.mk kind _ _
    congr 1
    exact Parse.verdict_behind u _

/-- **What stands in front of a command does not count** for a grammar that reads tokens. -/
theorem attempt_behind {g : Grammar} (read : Tokens → Reading Command)
    (hg : g.parse = parseTokens read) : g.attempt (s.behind u) = (g.attempt s).behind u := by
  simp only [Grammar.attempt, hg, parseTokens, TokenStream.ahead_behind]
  exact attempt_parse_behind u s g.kind (read s.ahead)

end

/-- **Attempts depend only on the text from their offset on.** -/
theorem attempts_behind (u : Text) (s : TokenStream) :
    (∀ g ∈ builtInGrammars, g.attempt (s.behind u) = (g.attempt s).behind u) ∧
      Indexed.attempts? (s.behind u) =
        (Indexed.attempts? s).map (List.map (Outcome.behind u)) := by
  have hbuiltIn : ∀ g ∈ builtInGrammars, g.attempt (s.behind u) = (g.attempt s).behind u := by
    intro g hg
    rcases List.mem_pair.1 hg with rfl | rfl
    · exact attempt_behind u s (fun tokens => (readAssignment tokens).map .assign) rfl
    · exact attempt_behind u s (fun tokens => (readRelabeling tokens).map .relabel) rfl
  refine ⟨hbuiltIn, ?_⟩
  rw [Indexed.attempts?_eq, Indexed.attempts?_eq, Option.map_some, List.map_map]
  exact congrArg some (List.map_congr_left hbuiltIn)

end MentionCommands
