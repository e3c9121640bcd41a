/-
  Ambiguities: when dispatch reports that several grammars claim a command.

  * `claimants`: the grammars that claim what stands in a stream;
  * `Collides`: an ambiguity is that of the first mention from the cursor on, which at least two
    grammars claim.  Code does not occur in it, since ambiguity goes before code;
  * `Session.Reachable.report_eq_ambiguous_iff`: dispatch reports an ambiguity just if it is one in
    this sense.  A session keeps the ambiguity that it has found; it stays one, because the cursor
    stays, too;
  * `Session.ambiguous_iff_collides`: so code hides a mention only if at most one grammar claims it,
    and an ambiguity is the only report from then on;
  * `Session.builtInGrammars_exclusive`: with the built-in grammars there is no ambiguity.
-/
import MentionCommands.Grammar.Samples
import MentionCommands.Proofs.Dispatch.Repeat
import MentionCommands.Proofs.Dispatch.Rule
import MentionCommands.Proofs.Grammar.Keyword

namespace MentionCommands

/-! ## Collisions -/

/-- The grammars that claim what stands in a stream, in their order. -/
def claimants (grammars : List Grammar) (stream : TokenStream) : List Grammar :=
  grammars.filter fun g => (g.attempt stream).claimed

/-- The grammars that claim what stands behind the first mention from the cursor on are two or
    more, and the ambiguity names them and the mention. -/
structure Collides (t bot : Text) (grammars : List Grammar) (cursor : Nat) (a : Ambiguity) :
    Prop where
  first : IsLeast {i | cursor ≤ i ∧ MentionAt t bot i} a.position
  several : 2 ≤ (claimants grammars (streamBehind t bot a.position)).length
  names : a.grammars = (claimants grammars (streamBehind t bot a.position)).map Grammar.kind
  text : a.text = t

/-- There is at most one ambiguity at a time. -/
theorem Collides.unique {t bot : Text} {grammars : List Grammar} {cursor : Nat} {a b : Ambiguity}
    (ha : Collides t bot grammars cursor a) (hb : Collides t bot grammars cursor b) : a = b := by
  have hposition : a.position = b.position := ha.first.unique hb.first
  have hnames : a.grammars = b.grammars := by rw [ha.names, hb.names, hposition]
  have htext : a.text = b.text := ha.text.trans hb.text.symm
  cases a
  cases b
  cases hposition
  cases hnames
  cases htext
  rfl

/-- No two built-in grammars claim the same command. -/
theorem length_claimants_builtInGrammars_le (stream : TokenStream) :
    (claimants builtInGrammars stream).length ≤ 1 := by
  simp only [claimants, builtInGrammars, List.filter_cons, List.filter_nil]
  cases hassign : (assignGrammar.attempt stream).claimed with
  | true => simp [claimed_exclusive hassign]
  | false => cases (relabelGrammar.attempt stream).claimed <;> simp

namespace Session

variable {s : Session} {t bot : Text} {tokens : List BlockToken} {grammars : List Grammar}

/-! ## Decisions -/

theorem IsOn.claims_sightingAt (h : s.IsOn t tokens bot grammars) (start : Nat) :
    (s.sightingAt start).claims =
      (claimants grammars (streamBehind t bot start)).map
        (·.attempt (streamBehind t bot start)) := by
  rw [Sighting.claims, sightingAt, h.behindMention, h.grammars, List.filter_map]
  rfl

theorem decision_eq_ambiguous_iff {g : Sighting} {a : Ambiguity} :
    s.decision g = .ambiguous a ↔
      2 ≤ g.claims.length ∧ a = ⟨g.claims.map Outcome.grammar, s.text, g.start⟩ := by
  unfold decision
  rcases hc : g.claims with _ | ⟨c, _ | ⟨c', cs⟩⟩
  · cases s.code.overlapping? g.start g.reach <;> simp
  · cases s.code.overlapping? g.start g.reach <;> simp
  · simp [eq_comm]

/-- A step decides for an ambiguity just if there is one. -/
theorem IsOn.ambiguous_iff (h : s.IsOn t tokens bot grammars) {a : Ambiguity} :
    (∃ g, s.sighting? = some g ∧ s.decision g = .ambiguous a) ↔
      Collides t bot grammars s.cursor a := by
  have hnames (start : Nat) : (s.sightingAt start).claims.map Outcome.grammar =
      (claimants grammars (streamBehind t bot start)).map Grammar.kind := by
    rw [h.claims_sightingAt, List.map_map]
    rfl
  have hlength (start : Nat) : (s.sightingAt start).claims.length =
      (claimants grammars (streamBehind t bot start)).length := by
    rw [h.claims_sightingAt, List.length_map]
  constructor
  · rintro ⟨g, hg, hd⟩
    obtain ⟨start, hfirst, rfl⟩ := h.sighting?_eq_some_iff.1 hg
    obtain ⟨hseveral, rfl⟩ := decision_eq_ambiguous_iff.1 hd
    exact ⟨hfirst, (hlength start) ▸ hseveral, hnames start, h.text⟩
  · rintro ⟨hfirst, hseveral, hn, ht⟩
    refine ⟨s.sightingAt a.position, h.sighting?_eq_some_iff.2 ⟨_, hfirst, rfl⟩,
      decision_eq_ambiguous_iff.2 ⟨(hlength _).symm ▸ hseveral, ?_⟩⟩
    rw [hnames, ← hn, h.text, ← ht]
    rfl

/-! ## Reports -/

/-- The ambiguity that a session keeps is there. -/
theorem Reachable.collides_of_fault (hs : s.Reachable t tokens bot grammars) {a : Ambiguity}
    (hf : s.fault = some a) : Collides t bot grammars s.cursor a := by
  -- an ambiguity comes up at the cursor, and from then on neither of the two changes
  refine (hs.induction (p := fun s => ∀ a, s.fault = some a → Collides t bot grammars s.cursor a)
    nofun fun s hon ih a hf => ?_).2 a hf
  rcases s.step_cases with ⟨-, hn, -⟩ | ⟨b, -, hn, hb⟩ | ⟨g, o, -, hn, hnone, -⟩
  · rw [hn] at hf ⊢
    exact ih a hf
  · rw [hn] at hf ⊢
    cases hf
    rcases hb with hb | ⟨-, hb⟩
    · exact ih a hb
    · exact hon.ambiguous_iff.1 hb
  · have hkept : s.next.fault = s.fault := by
      rw [hn, Session.after]
      split <;> rfl
    rw [hkept, hnone] at hf
    cases hf

/-- **Dispatch reports an ambiguity just if there is one.** -/
theorem Reachable.report_eq_ambiguous_iff (hs : s.Reachable t tokens bot grammars) {a : Ambiguity} :
    s.report = .ambiguous a ↔ Collides t bot grammars s.cursor a := by
  constructor
  · intro hr
    rcases s.step_cases with ⟨hr', -⟩ | ⟨b, hr', -, hb⟩ | ⟨g, o, hr', -⟩
    · rw [hr'] at hr
      cases hr
    · cases hr'.symm.trans hr
      rcases hb with hb | ⟨-, hb⟩
      · exact hs.collides_of_fault hb
      · exact hs.isOn.ambiguous_iff.1 hb
    · have hno : o.report ≠ .ambiguous a := by
        unfold Outcome.report
        split <;> exact nofun
      exact absurd (hr'.symm.trans hr) hno
  · intro hc
    cases hf : s.fault with
    | some b =>
      rw [(report_of_fault hf).1, hc.unique (hs.collides_of_fault hf)]
    | none =>
      obtain ⟨g, hg, hd⟩ := hs.isOn.ambiguous_iff.2 hc
      simp only [report, step, hf, hg, hd]

/-- A mention in code that at most one grammar claims gives no report, and changes nothing. -/
theorem Reachable.step_of_covers (hs : s.Reachable t tokens bot grammars) {start : Nat}
    (hfirst : IsLeast {i | s.cursor ≤ i ∧ MentionAt t bot i} start)
    (hcode : (CodeIndex.ofTokens t tokens).Covers start)
    (hsole : (claimants grammars (streamBehind t bot start)).length ≤ 1) :
    s.report = .nothing ∧ s.next = s := by
  have hon := hs.isOn
  have hsolo (a : Ambiguity) : ¬ Collides t bot grammars s.cursor a := by
    intro hc
    have hseveral := hc.several
    rw [hc.first.unique hfirst] at hseveral
    omega
  rcases s.step_cases with ⟨hr, hn, -⟩ | ⟨a, hr, -⟩ | ⟨g, o, -, -, -, hg, hd⟩
  · exact ⟨hr, hn⟩
  · exact absurd (hs.report_eq_ambiguous_iff.1 hr) (hsolo a)
  · obtain ⟨start', hd⟩ := hon.claimed_iff.1 ⟨g, hg, hd⟩
    cases hd.first.unique hfirst
    refine absurd hcode (hd.free.not_covers (Nat.le_refl _) ?_)
    simp [marker]

/-- Behind an ambiguity there are no other reports. -/
theorem report_iterate_of_ambiguous {a : Ambiguity} (hr : s.report = .ambiguous a) (n : Nat) :
    (Session.next^[n] s).report = .ambiguous a := by
  have hnot : ∀ name command, s.report ≠ .matched name command := by
    rw [hr]
    exact nofun
  cases n with
  | zero => exact hr
  | succ n =>
    obtain ⟨-, -, hfix⟩ := next_eq_self hnot
    rw [Function.iterate_succ_apply, Function.iterate_fixed hfix n, (next_eq_self hnot).2.1, hr]

/-- **Ambiguity goes before code.**  Dispatch reports an ambiguity just if at least two grammars
    claim the first mention from the cursor on, whether this lies in code or not, and from then on
    it reports nothing else.  A mention in code is hidden if at most one grammar claims it: then
    there is nothing to report, now and later, and the session stays as it is.  No two built-in
    grammars claim the same command. -/
theorem ambiguous_iff_collides (hs : s.Reachable t tokens bot grammars) :
    (∀ a, s.report = .ambiguous a ↔ Collides t bot grammars s.cursor a) ∧
    (∀ a, s.report = .ambiguous a → ∀ n, (Session.next^[n] s).report = .ambiguous a) ∧
    (∀ start, IsLeast {i | s.cursor ≤ i ∧ MentionAt t bot i} start →
      (CodeIndex.ofTokens t tokens).Covers start →
      (claimants grammars (streamBehind t bot start)).length ≤ 1 →
      ∀ n, Session.next^[n] s = s ∧ (Session.next^[n] s).report = .nothing) ∧
    ∀ stream, (claimants builtInGrammars stream).length ≤ 1 := by
  refine ⟨fun a => hs.report_eq_ambiguous_iff, fun a hr n => report_iterate_of_ambiguous hr n,
    fun start hfirst hcode hsole n => ?_, length_claimants_builtInGrammars_le⟩
  obtain ⟨hr, hn⟩ := hs.step_of_covers hfirst hcode hsole
  have hstay : Session.next^[n] s = s := Function.iterate_fixed hn n
  rw [hstay]
  exact ⟨rfl, hr⟩

/-- A command in code that one grammar claims is hidden, and so is what follows it. -/
theorem quoted_claim_hidden :
    let t := "`@bot claim ;` @bot claim".toList
    let tokens : List BlockToken := [⟨.inline, some (0, 1)⟩]
    let s := ofTokens t tokens "bot".toList builtInGrammars
    commonMark t = some tokens ∧ s.Reachable t tokens "bot".toList builtInGrammars ∧
    ∀ n, (Session.next^[n] s).report = .nothing := by
  intro t tokens s
  have hs : s.Reachable t tokens "bot".toList builtInGrammars := reachable_ofTokens ..
  have hfirst : IsLeast {i | 0 ≤ i ∧ MentionAt t "bot".toList i} 1 :=
    nextMention?_eq_some_iff.1 (by decide +kernel)
  have hcode : (CodeIndex.ofTokens t tokens).Covers 1 :=
    ⟨⟨0, 14⟩, by decide +kernel, by decide, by decide⟩
  obtain ⟨-, -, hhidden, hsole⟩ := ambiguous_iff_collides hs
  exact ⟨by decide +kernel, hs, fun n => (hhidden 1 hfirst hcode (hsole _) n).2⟩

/-- A command in code that two grammars claim is not hidden. -/
theorem ambiguous_in_code :
    ¬ ∀ (t bot : Text) (tokens : List BlockToken) (grammars : List Grammar) (s : Session)
      (a : Ambiguity), commonMark t = some tokens → s.Reachable t tokens bot grammars →
        s.report = .ambiguous a → ¬ (CodeIndex.ofTokens t tokens).Covers a.position := by
  intro h
  have hparse : commonMark "`@bot modify labels: +bug.`".toList =
      some [⟨.inline, some (0, 1)⟩] := by decide +kernel
  have hr : (ofTokens "`@bot modify labels: +bug.`".toList [⟨.inline, some (0, 1)⟩] "bot".toList
      [relabelGrammar, modifyGrammar]).report =
        .ambiguous ⟨["relabel".toList, "modify".toList], "`@bot modify labels: +bug.`".toList,
          1⟩ := by
    decide +kernel
  exact h _ _ _ _ _ _ hparse (reachable_ofTokens ..) hr
    ⟨⟨0, 27⟩, by decide +kernel, by decide, by decide⟩

/-! ## Built-in grammars -/

/-- **The built-in grammars exclude one another.**  Each of them claims a command just if the first
    token can be cut off and is one of its keywords, and leaves unread what it does not claim.  So
    dispatch with these grammars never reports an ambiguity. -/
theorem builtInGrammars_exclusive :
    (∀ s : TokenStream, (relabelGrammar.attempt s).claimed = true ↔
      ∃ k, s.peek = .ok (some k) ∧ k.isOneOf ["modify".toList] = true) ∧
    (∀ s : TokenStream, (assignGrammar.attempt s).claimed = true ↔
      ∃ k, s.peek = .ok (some k) ∧
        k.isOneOf ["claim".toList, "release-assignment".toList, "assign".toList] = true) ∧
    (∀ g ∈ builtInGrammars, ∀ s : TokenStream, (g.attempt s).claimed = false →
      (g.attempt s).position = s.position) ∧
    ∀ (t : Text) (tokens : List BlockToken) (bot : Text) (n : Nat) (a : Ambiguity),
      (Session.next^[n] (ofTokens t tokens bot builtInGrammars)).report ≠ .ambiguous a := by
  refine ⟨fun s => relabelGrammar_claimed_iff, fun s => assignGrammar_claimed_iff,
    fun g hg s => position_of_not_claimed_of_mem_builtInGrammars hg, fun t tokens bot n a hr => ?_⟩
  have hs : (Session.next^[n] (ofTokens t tokens bot builtInGrammars)).Reachable t tokens bot
      builtInGrammars := ⟨n, rfl⟩
  have hseveral := (hs.report_eq_ambiguous_iff.1 hr).several
  have hsole := length_claimants_builtInGrammars_le (streamBehind t bot a.position)
  omega

/-- A quote without an end is a fault of the list behind `modify`, and of no other command. -/
theorem unterminated_label_claimed :
    (relabelGrammar.attempt (.ofText " modify labels: \"bug".toList 0)).claimed = true ∧
    (assignGrammar.attempt (.ofText " modify labels: \"bug".toList 0)).position = 0 := by
  have h := builtInGrammars_exclusive
  exact ⟨(h.1 _).2 ⟨⟨.word, 1, "modify".toList⟩, by decide +kernel⟩,
    h.2.2.1 _ (List.mem_cons_self) _ (by decide +kernel)⟩

end Session

end MentionCommands
