/-
  Code does not depend on the style of line breaks.

  * `Scans`: what the scan for inline code reads at the front of a text, as a span or as none;
  * `scansAlike`: of the units of a text and of the characters that they become, the scan reads
    corresponding parts, since no unit but a backtick becomes a backtick and a backslash takes a
    break along in vain;
  * `inlineCode_units`: so the spans of both correspond;
  * `merge_map`: merging commutes with a move that keeps the order of offsets;
  * `spans_withLineFeeds`: so for a parser that takes all breaks for the same, the code of a text is
    that of the text with line feeds, moved to where its characters come from.
-/
import MentionCommands.Proofs.Code.Parts
import MentionCommands.Proofs.Markdown.CommonMark

namespace MentionCommands

/-- The scan of a text reads its front as a span of code, or as pieces without code, and goes on
    behind it. -/
def Scans (isCode : Bool) (front rest : Text) : Prop :=
  ∀ offset, inlineCode offset (front ++ rest) =
    (if isCode then [⟨offset, offset + front.length⟩] else []) ++
      inlineCode (offset + front.length) rest

/-- A span with its ends moved. -/
def Span.map (f : Nat → Nat) (s : Span) : Span := ⟨f s.start, f s.stop⟩

section
variable {n : Nat} {c : Char} {front rest body : Text}

/-! ## What is read at the front -/

theorem scans_piece {p : Piece} (hp : ∀ n body, p ≠ .code n body)
    (h : pieces (p.source ++ rest) = p :: pieces rest) : Scans false p.source rest := by
  intro offset
  rw [inlineCode_eq_append h]
  cases p with
  | plain | escaped | literal => rfl
  | code n body => exact absurd rfl (hp n body)

theorem scans_plain (hc : c ≠ backtick) (hs : c ≠ '\\') (rest : Text) : Scans false [c] rest :=
  scans_piece (p := .plain c) nofun (pieces_plain rest hs hc)

theorem scans_escaped (c : Char) (rest : Text) : Scans false ['\\', c] rest :=
  scans_piece (p := .escaped c) nofun (pieces_escaped c rest)

/-- A last backslash takes nothing along. -/
theorem scans_last : Scans false ['\\'] [] := scans_piece (p := .plain '\\') nofun rfl

theorem Scans.append (h : Scans false front (body ++ rest)) (h' : Scans false body rest) :
    Scans false (front ++ body) rest := by
  intro offset
  rw [List.append_assoc, h offset, h' (offset + front.length), List.length_append, Nat.add_assoc]
  rfl

/-- A run that nothing closes is read as it is. -/
theorem scans_literal (hn : 0 < n) (hrest : rest.head? ≠ some backtick)
    (hclose : closing? n 0 rest = none) : Scans false (List.replicate n backtick) rest := by
  have hrun := Text.run_replicate_append hrest n
  have hpieces := pieces_run (t := List.replicate n backtick ++ rest) (by rwa [hrun])
  rw [hrun, List.drop_left' (List.length_replicate ..), hclose] at hpieces
  exact scans_piece (p := .literal n) nofun hpieces

/-- A run with another one of its length is read as code. -/
theorem scans_code (hn : 0 < n)
    (hbody : (body ++ (List.replicate n backtick ++ rest)).head? ≠ some backtick)
    (hclose : closing? n 0 (body ++ (List.replicate n backtick ++ rest)) = some body.length) :
    Scans true (List.replicate n backtick ++ (body ++ List.replicate n backtick)) rest := by
  intro offset
  have hrun := Text.run_replicate_append hbody n
  have hpieces := pieces_run
    (t := List.replicate n backtick ++ (body ++ (List.replicate n backtick ++ rest)))
    (by rwa [hrun])
  have hlen : (List.replicate n backtick ++ (body ++ List.replicate n backtick)).length =
      2 * n + body.length := by
    simp only [List.length_append, List.length_replicate]
    omega
  have hdrop : (List.replicate n backtick ++ (body ++ (List.replicate n backtick ++ rest))).drop
      (2 * n + body.length) = rest := by
    rw [← hlen]
    simp only [← List.append_assoc, List.drop_left]
  rw [hrun, List.drop_left' (List.length_replicate ..), hclose] at hpieces
  simp only [List.take_left, hdrop] at hpieces
  rw [hlen, List.append_assoc, List.append_assoc, inlineCode_of_code hpieces, Nat.add_assoc]
  rfl

end

/-! ## Units and the characters that they become -/

namespace Text

variable {u : Text} {us : List Text}

theorem IsUnit.unify_eq_backtick (h : IsUnit u) (hu : unify u = backtick) : u = [backtick] := by
  cases h with
  | pair => exact absurd hu (by decide)
  | single c =>
    by_cases hc : c = '\r'
    · subst hc
      exact absurd hu (by decide)
    · rw [← hu]
      simp [unify, hc]

/-- Only backticks become backticks. -/
theorem exists_of_map_unify (h : ∀ u ∈ us, IsUnit u) {n : Nat} {behind : Text}
    (hus : us.map unify = List.replicate n backtick ++ behind) :
    ∃ vs, us = List.replicate n [backtick] ++ vs ∧ vs.map unify = behind := by
  induction n generalizing us with
  | zero => exact ⟨us, rfl, hus⟩
  | succ n ih =>
    cases us with
    | nil => cases hus
    | cons u us =>
      rw [List.map_cons, List.replicate_succ, List.cons_append, List.cons.injEq] at hus
      obtain ⟨hu, hus⟩ := hus
      obtain ⟨hunit, hunits⟩ := List.forall_mem_cons.1 h
      obtain ⟨vs, rfl, hvs⟩ := ih hunits hus
      rw [hunit.unify_eq_backtick hu]
      exact ⟨vs, rfl, hvs⟩

theorem flatten_replicate_backtick (n : Nat) :
    (List.replicate n [backtick]).flatten = List.replicate n backtick := by
  induction n with
  | zero => rfl
  | succ n ih => rw [List.replicate_succ, List.flatten_cons, ih]; rfl

theorem map_unify_replicate_backtick (n : Nat) :
    (List.replicate n [backtick]).map unify = List.replicate n backtick := by
  rw [List.map_replicate]
  rfl

theorem head?_flatten_ne (h : ∀ u ∈ us, IsUnit u) (hus : (us.map unify).head? ≠ some backtick) :
    us.flatten.head? ≠ some backtick := by
  cases us with
  | nil => exact nofun
  | cons u us =>
    cases (List.forall_mem_cons.1 h).1 with
    | pair => exact fun h => absurd (Option.some.inj h) (by decide)
    | single c =>
      intro hc
      rw [List.flatten_cons, List.singleton_append, List.head?_cons, Option.some.injEq] at hc
      subst hc
      exact hus rfl

end Text

section
variable {us : List Text} {n : Nat}

open Text (IsUnit unify)

theorem length_take_replicate_append (seen k : Nat) (us : List Text) :
    ((List.replicate seen [backtick] ++ us).take (seen + k)).flatten.length =
      seen + (us.take k).flatten.length := by
  have htake : (List.replicate seen [backtick] ++ us).take (seen + k) =
      List.replicate seen [backtick] ++ us.take k := by
    simp [List.take_append]
  rw [htake, List.flatten_append, List.length_append, Text.flatten_replicate_backtick,
    List.length_replicate]

/-- A unit that is no backtick ends the current run. -/
theorem closing?_unit {u : Text} (hu : IsUnit u) (hne : u ≠ [backtick]) (hn : 0 < n) (seen : Nat)
    (v : Text) :
    closing? n seen (u ++ v) =
      if seen = n then some 0 else (closing? n 0 v).map (seen + u.length + ·) := by
  cases hu with
  | pair =>
    have hr : ('\r' : Char) ≠ backtick := by decide
    have hf : ('\n' : Char) ≠ backtick := by decide
    show closing? n seen ('\r' :: '\n' :: v) = _
    have hsum : ((seen + 1 + ·) ∘ (0 + 1 + ·) : Nat → Nat) = (seen + 2 + ·) := by
      funext k
      simp only [Function.comp_apply]
      omega
    rw [closing?, if_neg hr, closing?, if_neg hf, if_neg hn.ne, Option.map_map, hsum]
    rfl
  | single c =>
    have hc : c ≠ backtick := fun hc => hne (congrArg (fun c => [c]) hc)
    rw [List.singleton_append, closing?, if_neg hc]
    rfl

/-- The run that closes another one stands where the corresponding run does. -/
theorem closing?_units (h : ∀ u ∈ us, IsUnit u) (hn : 0 < n) (seen : Nat) :
    closing? n seen us.flatten = (closing? n seen (us.map unify)).map fun k =>
      ((List.replicate seen [backtick] ++ us).take k).flatten.length := by
  induction us generalizing seen with
  | nil => by_cases hs : seen = n <;> simp [closing?, hs]
  | cons u us ih =>
    obtain ⟨hu, hus⟩ := List.forall_mem_cons.1 h
    by_cases htick : u = [backtick]
    · have hnext := ih hus (seen + 1)
      subst htick
      rw [List.replicate_succ', List.append_assoc] at hnext
      exact hnext
    · -- both runs end here, and both searches go on behind the unit
      have hunify : [unify u] ≠ [backtick] :=
        fun hc => htick (hu.unify_eq_backtick (List.cons.inj hc).1)
      have hchars : closing? n seen (unify u :: us.map unify) = _ :=
        closing?_unit (.single (unify u)) hunify hn seen (us.map unify)
      rw [List.flatten_cons, closing?_unit hu htick hn, List.map_cons, hchars, ih hus 0]
      by_cases hs : seen = n
      · simp [hs]
      · rw [if_neg hs, if_neg hs, Option.map_map, Option.map_map]
        congr 1
        funext k
        simp only [Function.comp_apply, List.replicate_zero, List.nil_append,
          List.length_singleton]
        rw [Nat.add_assoc seen 1, length_take_replicate_append, Nat.add_comm 1,
          List.take_succ_cons, List.flatten_cons, List.length_append, Nat.add_assoc]

/-! ## The scan, unit by unit -/

/-- The scan reads corresponding parts at the front of some units and of the characters that they
    become. -/
def ScansAlike (us : List Text) : Prop :=
  ∃ front rest isCode, us = front ++ rest ∧ front ≠ [] ∧
    Scans isCode front.flatten rest.flatten ∧ Scans isCode (front.map unify) (rest.map unify)

section
variable {vs : List Text} {n : Nat} (hunits : ∀ v ∈ vs, IsUnit v) (hrun : 0 < n)
  (hhead : (vs.map unify).head? ≠ some backtick)
include hunits hrun hhead

/-- A run that nothing closes is read alone. -/
theorem scansAlike_literal (hclose : closing? n 0 (vs.map unify) = none) :
    ScansAlike (List.replicate n [backtick] ++ vs) := by
  have hclosing := closing?_units hunits hrun 0
  rw [List.replicate_zero, List.nil_append, hclose] at hclosing
  have hne : List.replicate n [backtick] ≠ [] := by simpa using hrun.ne'
  refine ⟨_, vs, false, rfl, hne, ?_, ?_⟩
  · rw [Text.flatten_replicate_backtick]
    exact scans_literal hrun (Text.head?_flatten_ne hunits hhead) hclosing
  · rw [Text.map_unify_replicate_backtick]
    exact scans_literal hrun hhead hclose

/-- A run that some run closes is read with that run. -/
theorem scansAlike_code {k : Nat} (hclose : closing? n 0 (vs.map unify) = some k) :
    ScansAlike (List.replicate n [backtick] ++ vs) := by
  have hclosing := closing?_units hunits hrun 0
  rw [List.replicate_zero, List.nil_append, hclose, Option.map_some] at hclosing
  have hle := add_le_of_closing? hclose
  obtain ⟨behind, hbehind⟩ := exists_of_closing? hclose
  rw [List.replicate_zero, List.nil_append, ← List.map_drop] at hbehind
  obtain ⟨ws, hws, -⟩ := Text.exists_of_map_unify
    (fun v hv => hunits v (List.mem_of_mem_drop hv)) hbehind
  -- the body is `vs.take k`, and behind its closing run stand the units `ws`
  have hparts : vs = vs.take k ++ (List.replicate n [backtick] ++ ws) := by
    rw [← hws, List.take_append_drop]
  have hne : List.replicate n [backtick] ≠ [] := by simpa using hrun.ne'
  refine ⟨List.replicate n [backtick] ++ (vs.take k ++ List.replicate n [backtick]), ws, true,
    ?_, ?_, ?_, ?_⟩
  · nth_rewrite 1 [hparts]
    simp only [List.append_assoc]
  · exact List.append_ne_nil_of_left_ne_nil hne _
  · have hflat : vs.flatten =
        (vs.take k).flatten ++ (List.replicate n backtick ++ ws.flatten) := by
      nth_rewrite 1 [hparts]
      rw [List.flatten_append, List.flatten_append, Text.flatten_replicate_backtick]
    have hhead' := Text.head?_flatten_ne hunits hhead
    rw [hflat] at hhead' hclosing
    rw [List.flatten_append, List.flatten_append, Text.flatten_replicate_backtick]
    exact scans_code hrun hhead' hclosing
  · have hmap : vs.map unify =
        (vs.take k).map unify ++ (List.replicate n backtick ++ ws.map unify) := by
      nth_rewrite 1 [hparts]
      rw [List.map_append, List.map_append, Text.map_unify_replicate_backtick]
    have hlen : ((vs.take k).map unify).length = k := by
      rw [List.length_map] at hle ⊢
      exact List.length_take_of_le (by omega)
    rw [hmap] at hhead hclose
    rw [List.map_append, List.map_append, Text.map_unify_replicate_backtick]
    exact scans_code hrun hhead (by rw [hclose, hlen])

end

theorem scansAlike_run (h : ∀ u ∈ us, IsUnit u) (hrun : 0 < Text.run backtick (us.map unify)) :
    ScansAlike us := by
  obtain ⟨vs, hus, hvs⟩ := Text.exists_of_map_unify h
    (Text.replicate_run_append backtick (us.map unify)).symm
  have hhead := Text.head?_drop_run backtick (us.map unify)
  generalize Text.run backtick (us.map unify) = n at hrun hus hvs hhead
  rw [← hvs] at hhead
  subst hus
  have hunits : ∀ v ∈ vs, IsUnit v := fun v hv => h v (List.mem_append_right _ hv)
  cases hclose : closing? n 0 (vs.map unify) with
  | none => exact scansAlike_literal hunits hrun hhead hclose
  | some k => exact scansAlike_code hunits hrun hhead hclose

/-- Where no run starts, the scan reads a unit, or two behind a backslash. -/
theorem scansAlike_plain (h : ∀ u ∈ us, IsUnit u) (hne : us ≠ [])
    (hrun : Text.run backtick (us.map unify) = 0) : ScansAlike us := by
  have hr : ('\r' : Char) ≠ backtick ∧ ('\r' : Char) ≠ '\\' := by decide
  have hf : ('\n' : Char) ≠ backtick ∧ ('\n' : Char) ≠ '\\' := by decide
  obtain ⟨u, us, rfl⟩ := List.exists_cons_of_ne_nil hne
  obtain ⟨hu, hus⟩ := List.forall_mem_cons.1 h
  cases hu with
  | pair =>
    exact ⟨[['\r', '\n']], us, false, rfl, List.cons_ne_nil _ _,
      (scans_plain hr.1 hr.2 _).append (scans_plain hf.1 hf.2 _), scans_plain hf.1 hf.2 _⟩
  | single c =>
    by_cases hs : c = '\\'
    · subst hs
      cases us with
      | nil => exact ⟨[['\\']], [], false, rfl, List.cons_ne_nil _ _, scans_last, scans_last⟩
      | cons v us =>
        cases (List.forall_mem_cons.1 hus).1 with
        | pair =>
          -- the backslash takes the return along, or the line feed that the pair becomes
          exact ⟨[['\\'], ['\r', '\n']], us, false, rfl, List.cons_ne_nil _ _,
            (scans_escaped '\r' _).append (scans_plain hf.1 hf.2 _), scans_escaped '\n' _⟩
        | single d =>
          exact ⟨[['\\'], [d]], us, false, rfl, List.cons_ne_nil _ _, scans_escaped d _,
            scans_escaped (unify [d]) _⟩
    · have hc : c ≠ backtick := by
        rintro rfl
        simp [Text.run, unify, backtick] at hrun
      refine ⟨[[c]], us, false, rfl, List.cons_ne_nil _ _, scans_plain hc hs _, ?_⟩
      by_cases hreturn : c = '\r'
      · subst hreturn
        exact scans_plain hf.1 hf.2 _
      · have hunify : unify [c] = c := by simp [unify, hreturn]
        rw [List.map_singleton, hunify]
        exact scans_plain hc hs _

/-- **The scan reads corresponding parts** of units and of the characters that they become. -/
theorem scansAlike (h : ∀ u ∈ us, IsUnit u) (hne : us ≠ []) : ScansAlike us := by
  rcases Nat.eq_zero_or_pos (Text.run backtick (us.map unify)) with hrun | hrun
  · exact scansAlike_plain h hne hrun
  · exact scansAlike_run h hrun

/-- **The spans in units are those in the characters they become**, moved by any `f` that takes
    the place of a character to the place of its unit. -/
theorem inlineCode_units (h : ∀ u ∈ us, IsUnit u) {f : Nat → Nat} {offset place : Nat}
    (hf : ∀ k ≤ us.length, f (place + k) = offset + (us.take k).flatten.length) :
    inlineCode offset us.flatten = (inlineCode place (us.map unify)).map (Span.map f) := by
  induction hlen : us.length using Nat.strong_induction_on generalizing us offset place with
  | _ len ih =>
    by_cases hne : us = []
    · subst hne
      rfl
    · obtain ⟨front, rest, isCode, rfl, hfront, hscan, hscan'⟩ := scansAlike h hne
      have hstart := hf 0 (Nat.zero_le _)
      have hstop := hf front.length (by simp)
      rw [List.take_left] at hstop
      have hpos := List.length_pos_iff.2 hfront
      rw [List.length_append] at hlen
      have hrest : inlineCode (offset + front.flatten.length) rest.flatten =
          (inlineCode (place + front.length) (rest.map unify)).map (Span.map f) := by
        refine ih rest.length (by omega)
          (fun u hu => h u (List.mem_append_right _ hu)) (fun k hk => ?_) rfl
        rw [Nat.add_assoc, hf _ (by rw [List.length_append]; omega), List.take_length_add_append,
          List.flatten_append, List.length_append, Nat.add_assoc]
      rw [List.flatten_append, hscan offset, hrest, List.map_append, hscan' place,
        List.length_map, List.map_append]
      congr 1
      cases isCode with
      | false => rfl
      | true =>
        rw [Nat.add_zero, List.take_zero] at hstart
        simp only [if_true, List.map_cons, List.map_nil, Span.map, hstart, hstop,
          List.flatten_nil, List.length_nil, Nat.add_zero]

end

/-! ## Moved spans -/

/-- A move that keeps the order of offsets up to `n` keeps the order of spans there. -/
theorem Span.Precedes.map {f : Nat → Nat} {n : Nat} (hf : ∀ i j, i < j → j ≤ n → f i < f j)
    {a b : Span} (hb : b.start ≤ n ∧ b.stop ≤ n) (h : a.Precedes b) :
    (a.map f).Precedes (b.map f) := by
  rcases h with h | ⟨heq, h⟩
  · exact Or.inl (hf _ _ h hb.1)
  · exact Or.inr ⟨congrArg f heq, hf _ _ h hb.2⟩

/-- **Merging commutes with a move** that keeps the order of offsets. -/
theorem merge_map {f : Nat → Nat} {n : Nat} (hf : ∀ i j, i < j → j ≤ n → f i < f j)
    {spans : List Span} (hspans : ∀ s ∈ spans, s.start ≤ n ∧ s.stop ≤ n) :
    Span.merge (spans.map (Span.map f)) = (Span.merge spans).map (Span.map f) := by
  refine Span.merge_eq ?_ fun s => ?_
  · rw [List.pairwise_map]
    exact (Span.pairwise_merge spans).imp_of_mem fun _ hb h =>
      h.map hf (hspans _ (Span.mem_merge.1 hb))
  · simp only [List.mem_map, Span.mem_merge]

/-- The code of a token lies in the text, whatever lines the token names. -/
theorem le_length_of_mem_spans {t : Text} {token : BlockToken} {s : Span} (h : s ∈ token.spans t) :
    s.start ≤ t.length ∧ s.stop ≤ t.length := by
  obtain ⟨kind, _ | ⟨first, last⟩⟩ := token
  · cases kind <;> cases h
  · cases kind with
    | fence | codeBlock =>
      cases List.mem_singleton.1 h
      exact ⟨t.lineOffset_le_length _, t.lineOffset_le_length _⟩
    | inline =>
      rw [BlockToken.spans_inline, inlineCodeOf] at h
      obtain ⟨-, hlt, hstop⟩ := (stacked_inlineCode _ _).within s h
      have hstart := t.lineOffset_le_length (min first t.breaks)
      simp only [Span.of, Text.length_slice, lineRange] at hstop
      omega
    | other => cases h

/-! ## All code -/

open Text (units)

theorem lineRange_withLineFeeds (t : Text) (first last : Nat) :
    (lineRange t.withLineFeeds first last).map t.unitOffset = lineRange t first last := by
  rw [Span.map, lineRange, Text.unitOffset_lineOffset, Text.unitOffset_lineOffset,
    Text.breaks_withLineFeeds, lineRange]

theorem inlineCodeOf_withLineFeeds (t : Text) (first last : Nat) :
    inlineCodeOf t (lineRange t first last) =
      (inlineCodeOf t.withLineFeeds (lineRange t.withLineFeeds first last)).map
        (Span.map t.unitOffset) := by
  rw [lineRange, lineRange, Text.breaks_withLineFeeds]
  generalize min first t.breaks = first
  have hslice : t.slice (t.lineOffset first) (t.lineOffset last) =
      (((t.lines.drop first).take (last - first)).flatMap units).flatten := by
    rw [Text.flatten_flatMap_units]
    exact Text.slice_lines t first last
  rw [inlineCodeOf, inlineCodeOf, Span.of, Span.of, hslice, Text.slice_lines_withLineFeeds]
  refine inlineCode_units (fun u hu => ?_) fun k hk => ?_
  · obtain ⟨line, -, hu⟩ := List.mem_flatMap.1 hu
    exact Text.isUnit_of_mem_units hu
  · -- the units of these lines are a front part of those of all lines from `first` on
    have hunits : (t.lines.drop first).flatMap units =
        ((t.lines.drop first).take (last - first)).flatMap units ++
          ((t.lines.drop first).drop (last - first)).flatMap units := by
      rw [← List.flatMap_append, List.take_append_drop]
    rw [Text.unitOffset_lineOffset_add, hunits, List.take_append_of_le_length hk]

theorem tokenSpans_withLineFeeds (t : Text) (token : BlockToken) :
    token.spans t = (token.spans t.withLineFeeds).map (Span.map t.unitOffset) := by
  obtain ⟨kind, _ | ⟨first, last⟩⟩ := token
  · cases kind <;> rfl
  · cases kind with
    | fence | codeBlock =>
      exact congrArg (fun range : Span => [range]) (lineRange_withLineFeeds t first last).symm
    | inline => exact inlineCodeOf_withLineFeeds t first last
    | other => rfl

theorem spans_ofTokens_withLineFeeds (t : Text) (tokens : List BlockToken) :
    (CodeIndex.ofTokens t tokens).spans =
      (CodeIndex.ofTokens t.withLineFeeds tokens).spans.map (Span.map t.unitOffset) := by
  have hfound : tokens.flatMap (·.spans t) =
      (tokens.flatMap (·.spans t.withLineFeeds)).map (Span.map t.unitOffset) := by
    rw [List.map_flatMap]
    exact List.flatMap_congr fun token _ => tokenSpans_withLineFeeds t token
  rw [CodeIndex.ofTokens, CodeIndex.ofTokens, hfound]
  refine merge_map (fun i j h hj => Text.unitOffset_lt h hj) fun s hs => ?_
  obtain ⟨token, -, hs⟩ := List.mem_flatMap.1 hs
  exact le_length_of_mem_spans hs

/-- **The code of a text does not depend on the style of its line breaks**, if the block structure
    does not: with line feeds alone, where each unit of the text is one character, it is the same
    code, moved to where the units start. -/
theorem spans_withLineFeeds {parse : BlockParser} (hbreaks : parse.IgnoresBreaks) (t : Text) :
    t.units.flatten = t ∧ t.units.map Text.unify = t.withLineFeeds ∧
    t.unitOffset t.withLineFeeds.length = t.length ∧
    (CodeIndex.ofText? parse t).map CodeIndex.spans =
      (CodeIndex.ofText? parse t.withLineFeeds).map
        (·.spans.map (Span.map t.unitOffset)) := by
  refine ⟨t.flatten_units, t.withLineFeeds_eq.symm, t.unitOffset_length, ?_⟩
  rw [CodeIndex.ofText?, CodeIndex.ofText?, hbreaks t, Option.map_map, Option.map_map]
  exact congrArg (Option.map · (parse t)) (funext (spans_ofTokens_withLineFeeds t))

/-- A pair of carriage return and line feed in front moves code by one more character. -/
theorem spans_withLineFeeds_pair :
    let t : Text := "a\r\n`b`\r```\rc\n".toList
    commonMark.IgnoresBreaks ∧
    (CodeIndex.ofText? commonMark t.withLineFeeds).map CodeIndex.spans =
      some [⟨2, 5⟩, ⟨6, 12⟩] ∧
    (CodeIndex.ofText? commonMark t).map CodeIndex.spans = some [⟨3, 6⟩, ⟨7, 13⟩] := by
  intro t
  have hfeeds : (CodeIndex.ofText? commonMark t.withLineFeeds).map CodeIndex.spans =
      some [⟨2, 5⟩, ⟨6, 12⟩] := by decide +kernel
  have hmoved := (spans_withLineFeeds ignoresBreaks_commonMark t).2.2.2
  have hplaces := congrArg (Option.map (List.map (Span.map t.unitOffset))) hfeeds
  rw [Option.map_map] at hplaces
  exact ⟨ignoresBreaks_commonMark, hfeeds, hmoved.trans (hplaces.trans (by decide +kernel))⟩

end MentionCommands
