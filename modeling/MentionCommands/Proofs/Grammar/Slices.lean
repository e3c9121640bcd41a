/-
  Commands that stand alone.

  * `TokenStream.cut`: a stream in a text that is cut off; tokens that stand next in front of the
    cut stay as they are (`Reads.cut`), and what completes a command up to there still does;
  * `Recognizes.accepts_slice`: a reader that is known by its spellings makes the same value of the
    part that it has read;
  * `attempt_slice`: so a command is matched by its own text alone.
-/
import MentionCommands.Proofs.Grammar.Assigning
import MentionCommands.Proofs.Grammar.Relabeling
import MentionCommands.Proofs.Token.Cut

namespace MentionCommands

namespace TokenStream

/-- The stream at the same place of the text in front of an offset. -/
def cut (s : TokenStream) (n : Nat) : TokenStream := { s with text := s.text.take n }

variable {s s' s₁ : TokenStream} {t : Token} {ts : List Token} {closing : Option Token} {n : Nat}

theorem remaining_cut (s : TokenStream) (n : Nat) :
    (s.cut n).remaining = s.remaining.take (n - s.position) :=
  List.drop_take

/-- A token in front of the cut is read as before. -/
theorem next_cut (h : s.next = .ok (some (t, s₁))) (hn : s₁.position ≤ n) :
    (s.cut n).next = .ok (some (t, s₁.cut n)) := by
  obtain ⟨k, hk, rfl, rfl⟩ := next_eq_some_iff.1 h
  refine next_eq_some_iff.2 ⟨k, ?_, rfl, rfl⟩
  rw [remaining_cut]
  refine Lexeme.ofText_take hk ?_
  simp only [restore] at hn
  omega

theorem Reads.cut (h : s.Reads ts s') (hn : s'.position ≤ n) : (s.cut n).Reads ts (s'.cut n) := by
  induction h with
  | nil s => exact .nil (s.cut n)
  | cons hnext hrest ih => exact .cons (next_cut hnext (Nat.le_trans hrest.position_le hn)) (ih hn)

/-- A text that is cut where a stream stands ends there. -/
theorem next_cut_self (s : TokenStream) : (s.cut s.position).next = .ok none := by
  rw [next, remaining_cut, Nat.sub_self, List.take_zero]
  rfl

/-- What completes a command still does if the text is cut behind it: its end may stand for the
    token that closes the command, but none is lost. -/
theorem Completes.cut (h : s.Completes ts closing s') :
    (s.cut s'.position).Completes ts closing (s'.cut s'.position) :=
  ⟨h.1.cut (Nat.le_refl _), fun _ => next_cut_self s'⟩

end TokenStream

section
variable {α : Type} {read : Tokens → Reading α} {a : α} {spelling : Spelling} {s s' : TokenStream}

/-- **What a reader accepts it accepts alone**, cut out of its text. -/
theorem Recognizes.accepts_slice (h : Recognizes read a spelling) (haccepts : s.Accepts read a s') :
    ∃ s'', (TokenStream.ofText (s.text.slice s.position s'.position) 0).Accepts read a s'' ∧
      s.position + s''.position = s'.position := by
  obtain ⟨ts, closing, hspelling, hcompletes⟩ := (h s s').1 haccepts
  obtain ⟨used, hread, hcut⟩ := (h _ _).2 ⟨ts, closing, hspelling, hcompletes.cut⟩
  have hahead : (s.cut s'.position).ahead =
      (TokenStream.ofText (s.text.slice s.position s'.position) 0).ahead := by
    rw [TokenStream.ahead, TokenStream.remaining_cut]
    rfl
  have hposition : s.position + used = s'.position := congrArg TokenStream.position hcut
  rw [hahead] at hread
  refine ⟨_, ⟨used, hread, rfl⟩, ?_⟩
  rw [← hposition]
  exact congrArg (s.position + ·) (Nat.zero_add used)

/-- A grammar whose reader is known by its spellings matches a command by its own text. -/
theorem attempt_slice_of_recognizes {g : Grammar} {f : α → Command} {c : Command}
    (hg : g.parse = parseTokens fun tokens => (read tokens).map f)
    (hrecognizes : ∀ a, ∃ spelling, Recognizes read a spelling)
    (h : (g.attempt s).verdict = .matched c) :
    let alone := g.attempt (.ofText (s.text.slice s.position (g.attempt s).position) 0)
    alone.verdict = .matched c ∧ s.position + alone.position = (g.attempt s).position := by
  obtain ⟨a, s', hc, haccepts, hposition⟩ := (attempt_matched_iff hg).1 ⟨h, rfl⟩
  obtain ⟨spelling, hspelling⟩ := hrecognizes a
  obtain ⟨s'', halone, hlength⟩ := hspelling.accepts_slice haccepts
  rw [hposition] at halone hlength
  obtain ⟨hverdict, hend⟩ := (attempt_matched_iff hg).2 ⟨a, s'', hc, halone, rfl⟩
  exact ⟨hverdict, by rw [hend, hlength]⟩

end

/-- **A command is determined by its own text**: neither what stands in front of it nor what
    follows it counts. -/
theorem attempt_slice {g : Grammar} (hg : g ∈ builtInGrammars) {s : TokenStream} {c : Command}
    (h : (g.attempt s).verdict = .matched c) :
    let alone := g.attempt (.ofText (s.text.slice s.position (g.attempt s).position) 0)
    alone.verdict = .matched c ∧ s.position + alone.position = (g.attempt s).position := by
  rcases List.mem_pair.1 hg with rfl | rfl
  · refine attempt_slice_of_recognizes (f := .assign) rfl (fun a => ⟨assignmentSpelling a, ?_⟩) h
    exact fun s s' => (settles_readAssignment s).accepts a s'
  · exact attempt_slice_of_recognizes (f := .relabel) rfl
      (fun changes => ⟨relabelSpelling changes, recognizes_readRelabeling changes⟩) h

/-- The line breaks behind a command belong to it, up to the last one, and the dot of `v1.2` does
    not end it. -/
theorem attempt_slice_relabel :
    let text : Text := "@bot modify labels: v1.2, and -old\n \n claim.".toList
    let alone := relabelGrammar.attempt (.ofText (text.slice 4 37) 0)
    alone.verdict = .matched (.relabel [⟨.add, "v1.2".toList⟩, ⟨.remove, "old".toList⟩]) ∧
      4 + alone.position = 37 := by
  intro text
  have hverdict : (relabelGrammar.attempt (.ofText text 4)).verdict =
      .matched (.relabel [⟨.add, "v1.2".toList⟩, ⟨.remove, "old".toList⟩]) := by decide +kernel
  have hposition : (relabelGrammar.attempt (.ofText text 4)).position = 37 := by decide +kernel
  have halone := attempt_slice (List.mem_cons_of_mem _ List.mem_cons_self) hverdict
  rwa [hposition] at halone

end MentionCommands
