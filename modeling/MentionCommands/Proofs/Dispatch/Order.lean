/-
  The order of the grammars does not matter to dispatch.

  * `SameClaims`: behind every mention of a comment the same grammars of two lists claim the
    command, in whatever order;
  * `Report.Agrees`: two reports are equal, but for the order in which an ambiguity names its
    grammars;
  * `Session.Reachable.report_cases`: the cursor, the rule of dispatch and the claims decide what a
    step does, so two sessions with the same claims stay together (`Session.iterate_agrees`);
  * `Session.order_irrelevant`: the order of the grammars changes no report and no cursor, and
    neither does a grammar that claims nothing.
-/
import MentionCommands.Proofs.Dispatch.Ambiguity

namespace MentionCommands

/-! ## The same claims -/

/-- Behind every mention the same grammars of two lists claim the command, in whatever order. -/
def SameClaims (t bot : Text) (grammars grammars' : List Grammar) : Prop :=
  ∀ i, MentionAt t bot i → (claimants grammars (streamBehind t bot i)).Perm
    (claimants grammars' (streamBehind t bot i))

section
variable {t bot : Text} {tokens : List BlockToken} {grammars grammars' : List Grammar}
  {cursor : Nat}

theorem SameClaims.symm (h : SameClaims t bot grammars grammars') :
    SameClaims t bot grammars' grammars := fun i hi => (h i hi).symm

theorem sameClaims_of_perm (h : grammars.Perm grammars') (t bot : Text) :
    SameClaims t bot grammars grammars' := fun _ _ => h.filter _

/-- A grammar that claims nothing adds nothing to the claims. -/
theorem claimants_insert {g : Grammar} {stream : TokenStream} (front back : List Grammar)
    (h : (g.attempt stream).claimed = false) :
    claimants (front ++ g :: back) stream = claimants (front ++ back) stream := by
  simp only [claimants, List.filter_append, List.filter_cons, h, Bool.false_eq_true, if_false]

theorem soleClaim_iff_claimants {stream : TokenStream} {o : Outcome} :
    SoleClaim grammars stream o ↔ (claimants grammars stream).map (·.attempt stream) = [o] := by
  rw [← filter_claimed_eq_singleton_iff, List.filter_map]
  rfl

/-- The same claims give the same dispatch. -/
theorem SameClaims.dispatches (h : SameClaims t bot grammars grammars') {start : Nat} {o : Outcome}
    (hd : Dispatches t tokens bot grammars cursor start o) :
    Dispatches t tokens bot grammars' cursor start o := by
  refine ⟨hd.first, soleClaim_iff_claimants.2 ?_, hd.free⟩
  have hperm := (h start hd.first.1.2).map (·.attempt (streamBehind t bot start))
  rw [soleClaim_iff_claimants.1 hd.sole] at hperm
  exact List.perm_singleton.1 hperm.symm

/-- The same claims give the same ambiguity, but for the order of the names. -/
theorem SameClaims.exists_collides (h : SameClaims t bot grammars grammars') {a : Ambiguity}
    (hc : Collides t bot grammars cursor a) :
    ∃ names, a.grammars.Perm names ∧
      Collides t bot grammars' cursor ⟨names, a.text, a.position⟩ := by
  have hperm := h a.position hc.first.1.2
  refine ⟨(claimants grammars' (streamBehind t bot a.position)).map Grammar.kind, ?_,
    hc.first, hperm.length_eq ▸ hc.several, rfl, hc.text⟩
  rw [hc.names]
  exact hperm.map Grammar.kind

/-- A command is not dispatched and ambiguous at once. -/
theorem Dispatches.not_collides {start : Nat} {o : Outcome}
    (hd : Dispatches t tokens bot grammars cursor start o) (a : Ambiguity) :
    ¬ Collides t bot grammars cursor a := by
  intro hc
  have hseveral := hc.several
  have hsole := congrArg List.length (soleClaim_iff_claimants.1 hd.sole)
  rw [hc.first.unique hd.first] at hseveral
  rw [List.length_map, List.length_singleton] at hsole
  omega

end

/-! ## Reports that agree -/

/-- Two reports are equal, or they are ambiguities of one mention that name the same grammars, in
    whatever order. -/
inductive Report.Agrees : Report → Report → Prop where
  /-- A report agrees with itself. -/
  | refl (r : Report) : Agrees r r
  /-- The names are in another order. -/
  | ambiguous {names names' : List Text} (h : names.Perm names') (text : Text) (position : Nat) :
    Agrees (.ambiguous ⟨names, text, position⟩) (.ambiguous ⟨names', text, position⟩)

namespace Session

variable {s s' : Session} {t bot : Text} {tokens : List BlockToken}
  {grammars grammars' : List Grammar}

theorem Reachable.step_of_dispatches (hs : s.Reachable t tokens bot grammars) {start : Nat}
    {o : Outcome} (hd : Dispatches t tokens bot grammars s.cursor start o) :
    s.report = o.report ∧ s.next = s.after o := by
  have hf : s.fault = none := by
    cases hf : s.fault with
    | none => rfl
    | some a => exact absurd (hs.collides_of_fault hf) (hd.not_collides a)
  exact hs.isOn.step_of_dispatches hf hd

/-- **What a step does** is decided by the cursor, the rule of dispatch and the ambiguity that there
    is. -/
theorem Reachable.report_cases (hs : s.Reachable t tokens bot grammars) :
    (∃ a, Collides t bot grammars s.cursor a) ∨
    (∃ start o, Dispatches t tokens bot grammars s.cursor start o) ∨
    (s.report = .nothing ∧ s.next = s) := by
  rcases s.step_cases with ⟨hr, hn, -⟩ | ⟨a, hr, -⟩ | ⟨g, o, -, -, -, hg, ho⟩
  · exact Or.inr (Or.inr ⟨hr, hn⟩)
  · exact Or.inl ⟨a, hs.report_eq_ambiguous_iff.1 hr⟩
  · obtain ⟨start, hd⟩ := hs.isOn.claimed_iff.1 ⟨g, hg, ho⟩
    exact Or.inr (Or.inl ⟨start, o, hd⟩)

theorem cursor_after_congr (h : s.cursor = s'.cursor) (o : Outcome) :
    (s.after o).cursor = (s'.after o).cursor := by
  unfold after
  split
  · rfl
  · exact h

theorem cursor_next_of_ambiguous {a : Ambiguity} (h : s.report = .ambiguous a) :
    s.next.cursor = s.cursor :=
  (next_eq_self fun _ _ h' => by cases h.symm.trans h').1

/-- **A step keeps two sessions together** if they have the same claims. -/
theorem Reachable.step_agrees (h : SameClaims t bot grammars grammars')
    (hs : s.Reachable t tokens bot grammars) (hs' : s'.Reachable t tokens bot grammars')
    (hcursor : s.cursor = s'.cursor) :
    s.report.Agrees s'.report ∧ s.next.cursor = s'.next.cursor := by
  rcases hs.report_cases with ⟨a, hc⟩ | ⟨start, o, hd⟩ | ⟨hr, hn⟩
  · obtain ⟨names, hnames, hc'⟩ := h.exists_collides hc
    rw [hcursor] at hc'
    have hr := hs.report_eq_ambiguous_iff.2 hc
    have hr' := hs'.report_eq_ambiguous_iff.2 hc'
    rw [cursor_next_of_ambiguous hr, cursor_next_of_ambiguous hr', hr, hr']
    exact ⟨.ambiguous hnames _ _, hcursor⟩
  · obtain ⟨hr, hn⟩ := hs.step_of_dispatches hd
    obtain ⟨hr', hn'⟩ := hs'.step_of_dispatches (hcursor ▸ h.dispatches hd)
    rw [hn, hn', hr, hr']
    exact ⟨.refl _, cursor_after_congr hcursor o⟩
  · rcases hs'.report_cases with ⟨a, hc⟩ | ⟨start, o, hd⟩ | ⟨hr', hn'⟩
    · obtain ⟨names, -, hc'⟩ := h.symm.exists_collides hc
      cases hr.symm.trans (hs.report_eq_ambiguous_iff.2 (hcursor ▸ hc'))
    · have hd' := h.symm.dispatches hd
      rw [← hcursor] at hd'
      obtain ⟨hr'', hn''⟩ := hs.step_of_dispatches hd'
      obtain ⟨hr', hn'⟩ := hs'.step_of_dispatches hd
      rw [hn'', hn', hr'', hr']
      exact ⟨.refl _, cursor_after_congr hcursor o⟩
    · rw [hn, hn', hr, hr']
      exact ⟨.refl _, hcursor⟩

/-- **Sessions with the same claims stay together**, however many steps follow. -/
theorem iterate_agrees (h : SameClaims t bot grammars grammars') (n : Nat) :
    (Session.next^[n] (ofTokens t tokens bot grammars)).cursor =
      (Session.next^[n] (ofTokens t tokens bot grammars')).cursor ∧
    (Session.next^[n] (ofTokens t tokens bot grammars)).report.Agrees
      (Session.next^[n] (ofTokens t tokens bot grammars')).report := by
  have hcursor : (Session.next^[n] (ofTokens t tokens bot grammars)).cursor =
      (Session.next^[n] (ofTokens t tokens bot grammars')).cursor := by
    induction n with
    | zero => rfl
    | succ n ih =>
      rw [Function.iterate_succ_apply', Function.iterate_succ_apply']
      exact (Reachable.step_agrees h ⟨n, rfl⟩ ⟨n, rfl⟩ ih).2
  exact ⟨hcursor, (Reachable.step_agrees h ⟨n, rfl⟩ ⟨n, rfl⟩ hcursor).1⟩

/-- Reports that agree are equal if the claims are the same in the same order. -/
theorem Reachable.report_eq_of_agrees
    (h : ∀ i, MentionAt t bot i → claimants grammars (streamBehind t bot i) =
      claimants grammars' (streamBehind t bot i))
    (hs : s.Reachable t tokens bot grammars) (hs' : s'.Reachable t tokens bot grammars')
    (hagrees : s.report.Agrees s'.report) : s.report = s'.report := by
  generalize hr : s.report = r at hagrees ⊢
  generalize hr' : s'.report = r' at hagrees ⊢
  cases hagrees with
  | refl => rfl
  | ambiguous hperm text position =>
    have hc := hs.report_eq_ambiguous_iff.1 hr
    have hc' := hs'.report_eq_ambiguous_iff.1 hr'
    have hclaims := congrArg (List.map Grammar.kind) (h position hc.first.1.2)
    exact congrArg (Report.ambiguous ⟨·, text, position⟩)
      (hc.names.trans (hclaims.trans hc'.names.symm))

/-- **The order of the grammars does not matter.**  Whatever the order is, all reports are the same
    and leave the cursor at the same place; only an ambiguity names the grammars that claim its
    mention in the order that they have.  A grammar that claims nothing at any mention changes
    nothing at all, wherever it is put in. -/
theorem order_irrelevant (t : Text) (tokens : List BlockToken) (bot : Text) :
    (∀ grammars grammars' : List Grammar, grammars.Perm grammars' → ∀ n,
      (Session.next^[n] (ofTokens t tokens bot grammars)).cursor =
        (Session.next^[n] (ofTokens t tokens bot grammars')).cursor ∧
      (Session.next^[n] (ofTokens t tokens bot grammars)).report.Agrees
        (Session.next^[n] (ofTokens t tokens bot grammars')).report) ∧
    (∀ (grammars : List Grammar) (n : Nat) (a : Ambiguity),
      (Session.next^[n] (ofTokens t tokens bot grammars)).report = .ambiguous a →
        a.grammars = (claimants grammars (streamBehind t bot a.position)).map Grammar.kind) ∧
    ∀ (front : List Grammar) (g : Grammar) (back : List Grammar),
      (∀ i, MentionAt t bot i → (g.attempt (streamBehind t bot i)).claimed = false) → ∀ n,
        (Session.next^[n] (ofTokens t tokens bot (front ++ g :: back))).cursor =
          (Session.next^[n] (ofTokens t tokens bot (front ++ back))).cursor ∧
        (Session.next^[n] (ofTokens t tokens bot (front ++ g :: back))).report =
          (Session.next^[n] (ofTokens t tokens bot (front ++ back))).report := by
  refine ⟨fun grammars grammars' h => iterate_agrees (sameClaims_of_perm h t bot),
    fun grammars n a hr => ?_, fun front g back hg n => ?_⟩
  · have hs : (Session.next^[n] (ofTokens t tokens bot grammars)).Reachable t tokens bot grammars :=
      ⟨n, rfl⟩
    exact (hs.report_eq_ambiguous_iff.1 hr).names
  · have hclaims (i : Nat) (hi : MentionAt t bot i) := claimants_insert front back (hg i hi)
    obtain ⟨hcursor, hagrees⟩ := iterate_agrees (fun i hi => .of_eq (hclaims i hi)) n
    exact ⟨hcursor, Reachable.report_eq_of_agrees hclaims ⟨n, rfl⟩ ⟨n, rfl⟩ hagrees⟩

/-- Two grammars that both claim a command are named in their order; a third one that claims nothing
    is not. -/
theorem order_irrelevant_modify :
    let t := "@bot modify title. @bot claim".toList
    let tokens : List BlockToken := [⟨.inline, some (0, 1)⟩]
    commonMark t = some tokens ∧
    [relabelGrammar, modifyGrammar].Perm [modifyGrammar, relabelGrammar] ∧
    (∀ i, MentionAt t "bot".toList i → ((silentGrammar "mock".toList [] []).attempt
      (streamBehind t "bot".toList i)).claimed = false) ∧
    (Session.next^[2] (ofTokens t tokens "bot".toList
      [silentGrammar "mock".toList [] [], relabelGrammar, modifyGrammar])).report =
        .ambiguous ⟨["relabel".toList, "modify".toList], t, 0⟩ ∧
    (Session.next^[2] (ofTokens t tokens "bot".toList
      [relabelGrammar, modifyGrammar])).report.Agrees
        (.ambiguous ⟨["modify".toList, "relabel".toList], t, 0⟩) := by
  intro t tokens
  have hperm : [relabelGrammar, modifyGrammar].Perm [modifyGrammar, relabelGrammar] := .swap _ _ _
  have hsilent : ∀ i, MentionAt t "bot".toList i → ((silentGrammar "mock".toList [] []).attempt
      (streamBehind t "bot".toList i)).claimed = false := fun _ _ => rfl
  have hfirst : (Session.next^[2] (ofTokens t tokens "bot".toList
      [relabelGrammar, modifyGrammar])).report =
        .ambiguous ⟨["relabel".toList, "modify".toList], t, 0⟩ := by
    decide +kernel
  have hsecond : (Session.next^[2] (ofTokens t tokens "bot".toList
      [modifyGrammar, relabelGrammar])).report =
        .ambiguous ⟨["modify".toList, "relabel".toList], t, 0⟩ := by
    decide +kernel
  have hrule := order_irrelevant t tokens "bot".toList
  refine ⟨by decide +kernel, hperm, hsilent,
    (hrule.2.2 [] _ _ hsilent 2).2.trans hfirst, ?_⟩
  rw [← hsecond]
  exact (hrule.1 _ _ hperm 2).2

end Session

end MentionCommands
