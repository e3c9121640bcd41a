/-
  The rule of dispatch.

  * `SoleClaim`: one grammar alone claims what stands behind a mention;
  * `Dispatches`: the rule.  The first mention from the cursor on counts, one grammar alone claims
    what stands behind it, and neither the mention nor what the grammar has read lies in code;
  * `Session.IsOn.claimed_iff`: a step decides for a claim just if the rule gives it;
  * `Session.step_eq_rule`: so a step reports a command, or its refusal, just if the rule says so,
    and only a command moves the cursor.
-/
import MentionCommands.Grammar.BuiltIn
import MentionCommands.Markdown.Structure
import MentionCommands.Proofs.Code.Spans
import MentionCommands.Proofs.Dispatch.Mentions
import MentionCommands.Proofs.Dispatch.Step

namespace MentionCommands

/-- The stream behind a mention. -/
def streamBehind (t bot : Text) (start : Nat) : TokenStream :=
  ⟨t, start, start + (marker bot).length⟩

/-- One of the grammars claims what stands in a stream, and no other one does. -/
def SoleClaim (grammars : List Grammar) (stream : TokenStream) (o : Outcome) : Prop :=
  ∃ front g back, grammars = front ++ g :: back ∧ g.attempt stream = o ∧ o.claimed = true ∧
    ∀ h ∈ front ++ back, (h.attempt stream).claimed = false

/-- **The rule of dispatch**: the first mention from the cursor on starts at `start`, one grammar
    alone claims what stands behind it, and there is no code from the start of the mention up to
    the end of the mention and of what the grammar has read. -/
structure Dispatches (t : Text) (tokens : List BlockToken) (bot : Text) (grammars : List Grammar)
    (cursor start : Nat) (o : Outcome) : Prop where
  first : IsLeast {i | cursor ≤ i ∧ MentionAt t bot i} start
  sole : SoleClaim grammars (streamBehind t bot start) o
  free : (CodeIndex.ofTokens t tokens).Clear start (max (start + (marker bot).length) o.position)

theorem filter_claimed_eq_singleton_iff {grammars : List Grammar} {stream : TokenStream}
    {o : Outcome} :
    (grammars.map (·.attempt stream)).filter Outcome.claimed = [o] ↔
      SoleClaim grammars stream o := by
  rw [List.filter_map, List.map_eq_singleton_iff]
  constructor
  · rintro ⟨g, hg, rfl⟩
    obtain ⟨front, back, rfl, hfront, hclaim, hback⟩ := List.filter_eq_cons_iff.1 hg
    rw [List.filter_eq_nil_iff] at hback
    refine ⟨front, g, back, rfl, rfl, hclaim, fun h hh => ?_⟩
    rcases List.mem_append.1 hh with hh | hh
    · simpa using hfront h hh
    · simpa using hback h hh
  · rintro ⟨front, g, back, rfl, rfl, hclaim, hother⟩
    refine ⟨g, List.filter_eq_cons_iff.2 ⟨front, back, rfl, fun h hh => ?_, hclaim, ?_⟩, rfl⟩
    · simp [hother h (List.mem_append_left _ hh)]
    · rw [List.filter_eq_nil_iff]
      intro h hh
      simp [hother h (List.mem_append_right _ hh)]

namespace Session

variable {s : Session} {t bot : Text} {tokens : List BlockToken} {grammars : List Grammar}

/-- The sighting of a mention that starts at an offset. -/
def sightingAt (s : Session) (start : Nat) : Sighting :=
  ⟨start, start + (marker s.bot).length, s.grammars.map (·.attempt (s.behindMention start))⟩

theorem IsOn.behindMention (h : s.IsOn t tokens bot grammars) (start : Nat) :
    s.behindMention start = streamBehind t bot start := by
  rw [Session.behindMention, h.text, h.bot]
  rfl

theorem IsOn.sighting?_eq_some_iff (h : s.IsOn t tokens bot grammars) {g : Sighting} :
    s.sighting? = some g ↔
      ∃ start, IsLeast {i | s.cursor ≤ i ∧ MentionAt t bot i} start ∧ s.sightingAt start = g := by
  rw [sighting?, Option.map_eq_some_iff, h.text, h.bot]
  simp only [nextMention?_eq_some_iff]
  rfl

theorem IsOn.claims_eq_singleton_iff (h : s.IsOn t tokens bot grammars) {start : Nat}
    {o : Outcome} : (s.sightingAt start).claims = [o] ↔
      SoleClaim grammars (streamBehind t bot start) o := by
  rw [← filter_claimed_eq_singleton_iff, Sighting.claims, sightingAt, h.behindMention, h.grammars]

theorem decision_eq_claimed_iff {g : Sighting} {o : Outcome} :
    s.decision g = .claimed o ↔
      g.claims = [o] ∧ s.code.overlapping? g.start (max g.stop o.position) = none := by
  have hreach (c : Outcome) (hc : g.claims = [c]) : g.reach = max g.stop c.position := by
    rw [Sighting.reach, hc]
    rfl
  unfold decision
  rcases hc : g.claims with _ | ⟨c, _ | ⟨c', cs⟩⟩
  · cases s.code.overlapping? g.start g.reach <;> simp
  · rw [hreach c hc]
    simp only [List.cons.injEq, and_true]
    cases hover : s.code.overlapping? g.start (max g.stop c.position) with
    | none =>
      simp only [List.head?_cons, Option.elim_some, Decision.claimed.injEq]
      exact ⟨fun h => ⟨h, h ▸ hover⟩, fun h => h.1⟩
    | some span =>
      simp only [reduceCtorEq, false_iff, not_and]
      rintro rfl
      simp [hover]
  · simp

/-- A step decides for a claim just if the rule gives it. -/
theorem IsOn.claimed_iff (h : s.IsOn t tokens bot grammars) {o : Outcome} :
    (∃ g, s.sighting? = some g ∧ s.decision g = .claimed o) ↔
      ∃ start, Dispatches t tokens bot grammars s.cursor start o := by
  constructor
  · rintro ⟨g, hg, hd⟩
    obtain ⟨start, hfirst, rfl⟩ := h.sighting?_eq_some_iff.1 hg
    obtain ⟨hclaims, hover⟩ := decision_eq_claimed_iff.1 hd
    refine ⟨start, hfirst, h.claims_eq_singleton_iff.1 hclaims, ?_⟩
    rw [h.code, sightingAt, h.bot] at hover
    exact CodeIndex.overlapping?_eq_none_iff.1 hover
  · rintro ⟨start, hd⟩
    refine ⟨s.sightingAt start, h.sighting?_eq_some_iff.2 ⟨start, hd.first, rfl⟩,
      decision_eq_claimed_iff.2 ⟨h.claims_eq_singleton_iff.2 hd.sole, ?_⟩⟩
    rw [h.code, sightingAt, h.bot]
    exact CodeIndex.overlapping?_eq_none_iff.2 hd.free

/-- A step that the rule gives a claim for reports that claim. -/
theorem IsOn.step_of_dispatches (h : s.IsOn t tokens bot grammars) (hf : s.fault = none)
    {start : Nat} {o : Outcome} (hd : Dispatches t tokens bot grammars s.cursor start o) :
    s.report = o.report ∧ s.next = s.after o := by
  obtain ⟨g, hg, ho⟩ := h.claimed_iff.2 ⟨start, hd⟩
  rw [Session.report, Session.next, step_of_claimed hf hg ho]
  exact ⟨rfl, rfl⟩

theorem report_eq_matched {o : Outcome} {name : Text} {command : Command}
    (h : o.report = .matched name command) : o = ⟨name, .matched command, o.position⟩ := by
  obtain ⟨kind, verdict, position⟩ := o
  cases verdict <;> cases h
  rfl

theorem report_eq_rejected {o : Outcome} {name : Text} {error : Diagnostic}
    (h : o.report = .rejected name error) : o = ⟨name, .rejected error, o.position⟩ := by
  obtain ⟨kind, verdict, position⟩ := o
  cases verdict <;> cases h
  rfl

/-- What a step reports of a single claim comes from the rule. -/
theorem IsOn.dispatches_of_report (h : s.IsOn t tokens bot grammars)
    (hr : s.report.grammar?.isSome = true) :
    ∃ start o, Dispatches t tokens bot grammars s.cursor start o ∧ s.report = o.report ∧
      s.next = s.after o := by
  rcases s.step_cases with ⟨hr', -⟩ | ⟨a, hr', -⟩ | ⟨g, o, hr', hn, -, hg, ho⟩
  · simp [hr', Report.grammar?] at hr
  · simp [hr', Report.grammar?] at hr
  · obtain ⟨start, hd⟩ := h.claimed_iff.1 ⟨g, hg, ho⟩
    exact ⟨start, o, hd, hr', hn⟩

/-- **Dispatch is sound and complete for its rule.**  A step of a session that holds no ambiguity
    reports a command and moves the cursor to `p` just if the rule gives this command, ending at
    `p`; it reports a refusal just if the rule gives this refusal, and then the cursor stays.  So no
    offset of a reported command lies in code; and the rule asks for no more than that, if the lines
    of all tokens exist. -/
theorem step_eq_rule (hs : s.Reachable t tokens bot grammars) (hf : s.fault = none) :
    (∀ name command p, (s.report = .matched name command ∧ s.next.cursor = p) ↔
      ∃ start, Dispatches t tokens bot grammars s.cursor start ⟨name, .matched command, p⟩) ∧
    (∀ name error, s.report = .rejected name error ↔
      ∃ start p, Dispatches t tokens bot grammars s.cursor start ⟨name, .rejected error, p⟩) ∧
    (∀ name error, s.report = .rejected name error → s.next.cursor = s.cursor) ∧
    (∀ name command, s.report = .matched name command →
      ∃ start, IsLeast {i | s.cursor ≤ i ∧ MentionAt t bot i} start ∧
        ∀ i, start ≤ i → i < max (start + (marker bot).length) s.next.cursor →
          ¬ (CodeIndex.ofTokens t tokens).Covers i) ∧
    (LinesExist t tokens → ∀ start stop, start < stop →
      ((CodeIndex.ofTokens t tokens).Clear start stop ↔
        ∀ i, start ≤ i → i < stop → ¬ (CodeIndex.ofTokens t tokens).Covers i)) := by
  have h := hs.isOn
  have hmatched (name command) (hr : s.report = .matched name command) :
      ∃ start,
        Dispatches t tokens bot grammars s.cursor start ⟨name, .matched command, s.next.cursor⟩ := by
    obtain ⟨start, o, hd, hr', hn⟩ := h.dispatches_of_report (by rw [hr]; rfl)
    have ho := report_eq_matched (hr'.symm.trans hr)
    have hcursor : s.next.cursor = o.position := by rw [hn, ho]; rfl
    exact ⟨start, by rw [hcursor, ← ho]; exact hd⟩
  have hrejected (name error) (hr : s.report = .rejected name error) :
      s.next = s ∧
        ∃ start p, Dispatches t tokens bot grammars s.cursor start ⟨name, .rejected error, p⟩ := by
    obtain ⟨start, o, hd, hr', hn⟩ := h.dispatches_of_report (by rw [hr]; rfl)
    have ho := report_eq_rejected (hr'.symm.trans hr)
    refine ⟨by rw [hn, ho]; rfl, start, o.position, ?_⟩
    rw [← ho]
    exact hd
  refine ⟨fun name command p => ⟨?_, ?_⟩,
    fun name error => ⟨fun hr => (hrejected name error hr).2, ?_⟩,
    fun name error hr => by rw [(hrejected name error hr).1], fun name command hr => ?_,
    fun hlines start stop => CodeIndex.clear_iff hlines⟩
  · rintro ⟨hr, rfl⟩
    exact hmatched name command hr
  · rintro ⟨start, hd⟩
    obtain ⟨hr, hn⟩ := h.step_of_dispatches hf hd
    exact ⟨hr, by rw [hn]; rfl⟩
  · rintro ⟨start, p, hd⟩
    exact (h.step_of_dispatches hf hd).1
  · obtain ⟨start, hd⟩ := hmatched name command hr
    exact ⟨start, hd.first, fun i hi hi' => hd.free.not_covers hi hi'⟩

/-- Behind the first command of this comment, the rule gives the second one. -/
theorem dispatches_second :
    let t := "@bot claim.\n@bot assign @ann.".toList
    let tokens : List BlockToken := [⟨.inline, some (0, 2)⟩]
    commonMark t = some tokens ∧
    (ofTokens t tokens "bot".toList builtInGrammars).next.fault = none ∧
    ∃ start, Dispatches t tokens "bot".toList builtInGrammars 11 start
      ⟨"assign".toList, .matched (.assign (.user "ann".toList)), 29⟩ := by
  intro t tokens
  have hs := (reachable_ofTokens t tokens "bot".toList builtInGrammars).next
  have hf : (ofTokens t tokens "bot".toList builtInGrammars).next.fault = none := by
    decide +kernel
  have hcursor : (ofTokens t tokens "bot".toList builtInGrammars).next.cursor = 11 := by
    decide +kernel
  have hrule := (step_eq_rule hs hf).1 "assign".toList (.assign (.user "ann".toList)) 29
  rw [hcursor] at hrule
  exact ⟨by decide +kernel, hf, hrule.1 (by decide +kernel)⟩

end Session

end MentionCommands
