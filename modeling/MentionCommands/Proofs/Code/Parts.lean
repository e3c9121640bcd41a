/-
  The inline code of a part of a text, and that of the whole text.

  * `exists_pieces_append`: the first piece of a text stays what it is if something follows, unless
    it is a run of backticks that only the continuation closes, or a backslash at the very end;
  * `exists_span_append`: what follows a text takes no code away from it.  A run of backticks that
    nothing closes may find its end there, but then it covers all code behind it;
  * `pieces_append`: the scan of a text whose runs are all closed does not depend on what follows;
  * `exists_pieces_cut`: the scan starts afresh behind a plain character, unless code of the whole
    text reaches over that place.
-/
import MentionCommands.Proofs.Code.Spans

namespace MentionCommands

/-! ## The first piece -/

section

variable {n seen k : Nat} {t b : Text}

theorem closing?_append_of_some (hb : b.head? ≠ some backtick) (h : closing? n seen t = some k) :
    closing? n seen (t ++ b) = some k := by
  fun_induction closing? n seen t generalizing k with
  | case1 =>
    cases b with
    | nil => simpa [closing?] using h
    | cons c b =>
      have hc : c ≠ backtick := fun hc => hb (congrArg some hc)
      simpa [closing?, hc] using h
  | case2 => cases h
  | case3 seen rest ih =>
    rw [List.cons_append, closing?, if_pos rfl]
    exact ih h
  | case4 c rest hc => simpa [closing?, hc] using h
  | case5 seen c rest hc hs ih =>
    obtain ⟨m, hm, rfl⟩ := Option.map_eq_some_iff.1 h
    rw [List.cons_append, closing?, if_neg hc, if_neg hs, ih hm]
    rfl

/-- A run that closes another one lies in the text. -/
theorem add_le_of_closing? (h : closing? n seen t = some k) : k + n ≤ seen + t.length := by
  fun_induction closing? n seen t generalizing k with
  | case1 =>
    cases h
    simp
  | case2 => cases h
  | case3 seen rest ih =>
    have := ih h
    simp only [List.length_cons]
    omega
  | case4 c rest hc =>
    cases h
    omega
  | case5 seen c rest hc hs ih =>
    obtain ⟨m, hm, rfl⟩ := Option.map_eq_some_iff.1 h
    have := ih hm
    simp only [List.length_cons]
    omega

/-- A run that only what follows a text closes is closed behind the text. -/
theorem add_length_le_of_closing?_append (hb : b.head? ≠ some backtick)
    (h : closing? n seen t = none) (h' : closing? n seen (t ++ b) = some k) :
    seen + t.length ≤ k := by
  fun_induction closing? n seen t generalizing k with
  | case1 => cases h
  | case2 seen hs =>
    cases b with
    | nil => simp [closing?, hs] at h'
    | cons c b =>
      have hc : c ≠ backtick := fun hc => hb (congrArg some hc)
      rw [List.nil_append, closing?, if_neg hc, if_neg hs] at h'
      obtain ⟨m, -, rfl⟩ := Option.map_eq_some_iff.1 h'
      simp only [List.length_nil]
      omega
  | case3 seen rest ih =>
    rw [List.cons_append, closing?, if_pos rfl] at h'
    have := ih h h'
    simp only [List.length_cons]
    omega
  | case4 c rest hc => cases h
  | case5 seen c rest hc hs ih =>
    rw [List.cons_append, closing?, if_neg hc, if_neg hs] at h'
    obtain ⟨m, hm, rfl⟩ := Option.map_eq_some_iff.1 h'
    have := ih (Option.map_eq_none_iff.1 h) hm
    simp only [List.length_cons]
    omega

/-- No run is closed before the next backtick. -/
theorem closing?_append_of_not_mem (hn : 0 < n) (ht : backtick ∉ t) (b : Text) :
    closing? n 0 (t ++ b) = (closing? n 0 b).map (t.length + ·) := by
  induction t with
  | nil => simp
  | cons c t ih =>
    rw [List.mem_cons, not_or] at ht
    rw [List.cons_append, closing?, if_neg (Ne.symm ht.1), if_neg hn.ne, ih ht.2, Option.map_map,
      List.length_cons]
    congr 1
    funext m
    simp only [Function.comp_apply]
    omega

/-- A backtick opens code, which the next one closes if both stand alone. -/
theorem pieces_tick (ht : backtick ∉ t) (hne : t ≠ []) (hb : b.head? ≠ some backtick) :
    pieces (backtick :: (t ++ backtick :: b)) = .code 1 t :: pieces b := by
  have hrun : Text.run backtick (backtick :: (t ++ backtick :: b)) = 1 := by
    obtain ⟨c, t, rfl⟩ := List.exists_cons_of_ne_nil hne
    rw [List.mem_cons, not_or] at ht
    simp [Text.run, Ne.symm ht.1]
  have hend : closing? 1 0 (backtick :: b) = some 0 :=
    closing?_append_of_some (t := [backtick]) hb rfl
  have hclose : closing? 1 0 (t ++ backtick :: b) = some t.length := by
    rw [closing?_append_of_not_mem Nat.zero_lt_one ht, hend]
    rfl
  have hdrop : (t ++ backtick :: b).drop (t.length + 1) = b := by
    rw [← List.drop_drop, List.drop_left]
    rfl
  rw [pieces_run (by rw [hrun]; exact Nat.zero_lt_one), hrun, List.drop_succ_cons, List.drop_zero,
    hclose]
  simp only [List.take_left, Nat.mul_one, Nat.add_comm 2, List.drop_succ_cons, hdrop]

theorem eq_append_of_pieces_eq_cons {p : Piece} {rest : Text} (h : pieces t = p :: pieces rest) :
    t = p.source ++ rest := by
  have ht := flatMap_source_pieces t
  rw [h, List.flatMap_cons, flatMap_source_pieces] at ht
  exact ht.symm

/-- **The first piece of a text stays what it is if something follows**, with two exceptions: a run
    of backticks may be closed behind the text, and a last backslash may take a character along. -/
theorem exists_pieces_append (hb : b.head? ≠ some backtick) (ht : t ≠ []) :
    ∃ p rest, pieces t = p :: pieces rest ∧
      (pieces (t ++ b) = p :: pieces (rest ++ b) ∨
        (∃ n body ps, p = .literal n ∧ pieces (t ++ b) = .code n body :: ps ∧
          t.length ≤ n + body.length) ∨
        t = ['\\']) := by
  by_cases hrun : 0 < Text.run backtick t
  · have hle := Text.run_le_length backtick t
    have hpieces := pieces_run hrun
    have hpieces' := pieces_run (t := t ++ b) (by rwa [Text.run_append_of_head hb])
    rw [Text.run_append_of_head hb, List.drop_append_of_le_length hle] at hpieces'
    cases hclose : closing? (Text.run backtick t) 0 (t.drop (Text.run backtick t)) with
    | some inner =>
      rw [hclose] at hpieces
      rw [closing?_append_of_some hb hclose] at hpieces'
      have hfit := add_le_of_closing? hclose
      simp only [List.length_drop] at hfit hpieces hpieces'
      rw [List.take_append_of_le_length (by rw [List.length_drop]; omega),
        List.drop_append_of_le_length (by omega)] at hpieces'
      exact ⟨_, _, hpieces, Or.inl hpieces'⟩
    | none =>
      rw [hclose] at hpieces
      refine ⟨_, _, hpieces, ?_⟩
      cases hclose' : closing? (Text.run backtick t) 0 (t.drop (Text.run backtick t) ++ b) with
      | some inner =>
        rw [hclose'] at hpieces'
        have hinner := add_length_le_of_closing?_append hb hclose hclose'
        have hfit := add_le_of_closing? hclose'
        simp only [List.length_append, List.length_drop] at hinner hfit
        refine Or.inr (Or.inl ⟨_, _, _, rfl, hpieces', ?_⟩)
        rw [List.length_take, List.length_append, List.length_drop]
        omega
      | none =>
        rw [hclose'] at hpieces'
        exact Or.inl hpieces'
  · obtain ⟨c, rest, rfl⟩ := List.exists_cons_of_ne_nil ht
    have hc : c ≠ backtick := by
      rintro rfl
      simp [Text.run] at hrun
    by_cases hs : c = '\\'
    · subst hs
      cases rest with
      | nil => exact ⟨.plain '\\', [], rfl, Or.inr (Or.inr rfl)⟩
      | cons d rest => exact ⟨.escaped d, rest, pieces_escaped d rest, Or.inl rfl⟩
    · exact ⟨.plain c, rest, pieces_plain rest hs hc, Or.inl (pieces_plain (rest ++ b) hs hc)⟩

end

/-- A text that is not empty is its first piece and what is scanned behind it. -/
theorem exists_pieces_eq_cons {t : Text} (h : t ≠ []) : ∃ p rest, pieces t = p :: pieces rest := by
  obtain ⟨p, rest, hp, -⟩ := exists_pieces_append (b := []) nofun h
  exact ⟨p, rest, hp⟩

/-! ## Places of pieces -/

theorem locate_cons (offset : Nat) (p : Piece) (ps : List Piece) :
    locate offset (p :: ps) = locate offset [p] ++ locate (offset + p.source.length) ps := by
  cases p with
  | plain | escaped | literal => rfl
  | code n body =>
    have hlen : offset + (Piece.code n body).source.length = offset + 2 * n + body.length := by
      simp only [Piece.source, List.length_append, List.length_replicate]
      omega
    rw [hlen]
    rfl

theorem locate_append (offset : Nat) (ps qs : List Piece) :
    locate offset (ps ++ qs) =
      locate offset ps ++ locate (offset + (ps.flatMap Piece.source).length) qs := by
  induction ps generalizing offset with
  | nil => rfl
  | cons p ps ih =>
    rw [List.cons_append, locate_cons, ih, locate_cons offset p ps, List.flatMap_cons,
      List.length_append, List.append_assoc, Nat.add_assoc]

theorem inlineCode_eq_append {t rest : Text} {p : Piece} (h : pieces t = p :: pieces rest)
    (offset : Nat) :
    inlineCode offset t = locate offset [p] ++ inlineCode (offset + p.source.length) rest := by
  rw [inlineCode, h, locate_cons]
  rfl

theorem inlineCode_of_code {t rest body : Text} {n : Nat}
    (h : pieces t = .code n body :: pieces rest) (offset : Nat) :
    inlineCode offset t = ⟨offset, offset + 2 * n + body.length⟩ ::
      inlineCode (offset + 2 * n + body.length) rest := by
  rw [inlineCode, h]
  rfl

/-- Neither a character of its own nor a backslash at the end opens anything. -/
theorem pieces_unescaped {c : Char} {u : Text} (hc : c ≠ backtick) (hu : c = '\\' → u = []) :
    pieces (c :: u) = .plain c :: pieces u := by
  by_cases hs : c = '\\'
  · rw [hs, hu hs]
    rfl
  · exact pieces_plain u hs hc

theorem inlineCode_escaped (offset : Nat) (d : Char) (rest : Text) :
    inlineCode offset ('\\' :: d :: rest) = inlineCode (offset + 2) rest :=
  inlineCode_eq_append (pieces_escaped d rest) offset

theorem inlineCode_unescaped {c : Char} {u : Text} (offset : Nat) (hc : c ≠ backtick)
    (hu : c = '\\' → u = []) : inlineCode offset (c :: u) = inlineCode (offset + 1) u :=
  inlineCode_eq_append (pieces_unescaped hc hu) offset

/-- What a run of backticks at the front is for inline code: a span, if something closes it. -/
theorem inlineCode_run {t : Text} {n : Nat} (offset : Nat) (hrun : Text.run backtick t = n)
    (hn : 0 < n) :
    inlineCode offset t =
      match closing? n 0 (t.drop n) with
      | none => inlineCode (offset + n) (t.drop n)
      | some inner =>
        let stop := offset + n + inner + n
        ⟨offset, stop⟩ :: inlineCode stop (t.drop (n + inner + n)) := by
  have hpieces := pieces_run (t := t) (by omega)
  rw [hrun] at hpieces
  cases hclose : closing? n 0 (t.drop n) with
  | none =>
    rw [hclose] at hpieces
    rw [inlineCode_eq_append hpieces]
    simp [Piece.source, locate]
  | some inner =>
    have hfit := add_le_of_closing? hclose
    have hlength : ((t.drop n).take inner).length = inner := List.length_take_of_le (by omega)
    have hstop : offset + 2 * n + inner = offset + n + inner + n := by omega
    have hskip : 2 * n + inner = n + inner + n := by omega
    rw [hclose] at hpieces
    rw [inlineCode_of_code hpieces, hlength, hstop, hskip]

/-! ## What follows a text -/

/-- **What follows a text takes no code away from it**: each of its spans lies in a span of the
    longer text. -/
theorem exists_span_append {b : Text} (hb : b.head? ≠ some backtick) (offset : Nat) (t : Text) :
    ∀ span ∈ inlineCode offset t, ∃ span' ∈ inlineCode offset (t ++ b),
      span'.start ≤ span.start ∧ span.stop ≤ span'.stop := by
  intro span hspan
  induction hps : pieces t generalizing t offset with
  | nil =>
    rw [inlineCode, hps] at hspan
    cases hspan
  | cons p ps ih =>
    have hne : t ≠ [] := by
      rintro rfl
      cases hps
    obtain ⟨p', rest, hp, hkept | ⟨n, body, qs, rfl, hcode, hlen⟩ | rfl⟩ :=
      exists_pieces_append hb hne
    · obtain ⟨rfl, rfl⟩ := List.cons_eq_cons.1 (hps.symm.trans hp)
      rw [inlineCode_eq_append hp] at hspan
      rw [inlineCode_eq_append hkept]
      rcases List.mem_append.1 hspan with hspan | hspan
      · exact ⟨span, List.mem_append_left _ hspan, Nat.le_refl _, Nat.le_refl _⟩
      · obtain ⟨span', hspan', hin⟩ := ih _ rest hspan rfl
        exact ⟨span', List.mem_append_right _ hspan', hin⟩
    · -- the run is closed behind the text, so its code covers the rest of the text
      have hwithin := (stacked_inlineCode offset t).within span hspan
      rw [inlineCode, hcode]
      exact ⟨_, List.mem_cons_self, hwithin.1, by simp only; omega⟩
    · cases hspan

/-- Whether everything in a text that opens code is closed in it. -/
def isBalanced (t : Text) : Bool :=
  (pieces t).all fun
    | .literal _ => false
    | _ => true

/-- **The scan of a balanced text does not depend on what follows**, if this goes on neither with
    its last backslash nor with its last run. -/
theorem pieces_append {t b : Text} (hbal : isBalanced t = true) (hlast : t.getLast? ≠ some '\\')
    (hb : b.head? ≠ some backtick) : pieces (t ++ b) = pieces t ++ pieces b := by
  induction hps : pieces t generalizing t with
  | nil =>
    have ht := flatMap_source_pieces t
    rw [hps] at ht
    subst ht
    rfl
  | cons p ps ih =>
    have hne : t ≠ [] := by
      rintro rfl
      cases hps
    obtain ⟨p', rest, hp, hkept | ⟨n, body, qs, rfl, -⟩ | rfl⟩ := exists_pieces_append hb hne
    · obtain ⟨rfl, rfl⟩ := List.cons_eq_cons.1 (hps.symm.trans hp)
      rw [isBalanced, hp, List.all_cons, Bool.and_eq_true] at hbal
      have hlast' : rest.getLast? ≠ some '\\' := by
        intro h
        rw [eq_append_of_pieces_eq_cons hp, List.getLast?_append, h] at hlast
        exact hlast rfl
      rw [hkept, ih hbal.2 hlast' rfl, List.cons_append]
    · rw [isBalanced, hp] at hbal
      cases hbal
    · exact absurd rfl hlast

/-! ## Cuts -/

/-- A place in a text either parts two pieces or lies inside one. -/
theorem exists_piece_of_le {t : Text} {n : Nat} (h : n ≤ t.length) :
    (∃ ps, pieces t = ps ++ pieces (t.drop n) ∧ ps.flatMap Piece.source = t.take n) ∨
    ∃ ps p rest, pieces t = ps ++ p :: pieces rest ∧
      t = ps.flatMap Piece.source ++ p.source ++ rest ∧
      (ps.flatMap Piece.source).length < n ∧
      n < (ps.flatMap Piece.source).length + p.source.length := by
  induction hps : pieces t generalizing t n with
  | nil =>
    have ht := flatMap_source_pieces t
    rw [hps] at ht
    subst ht
    exact Or.inl ⟨[], by simpa using hps.symm, by simp⟩
  | cons p ps ih =>
    have hne : t ≠ [] := by
      rintro rfl
      cases hps
    obtain ⟨p', rest, hp⟩ := exists_pieces_eq_cons hne
    obtain ⟨rfl, rfl⟩ := List.cons_eq_cons.1 (hps.symm.trans hp)
    have ht := eq_append_of_pieces_eq_cons hp
    have hlen : t.length = p.source.length + rest.length := by rw [ht, List.length_append]
    rcases Nat.lt_or_ge n p.source.length with hlt | hge
    · rcases Nat.eq_zero_or_pos n with rfl | hpos
      · exact Or.inl ⟨[], hps.symm, rfl⟩
      · exact Or.inr ⟨[], p, rest, rfl, ht, hpos, by simpa using hlt⟩
    · obtain ⟨m, rfl⟩ := Nat.exists_eq_add_of_le hge
      have hdrop : t.drop (p.source.length + m) = rest.drop m := by
        rw [ht, ← List.drop_drop, List.drop_left]
      have htake : t.take (p.source.length + m) = p.source ++ rest.take m := by
        rw [ht, List.take_length_add_append]
      rcases ih (t := rest) (n := m) (by omega) rfl with
        ⟨qs, hqs, hsource⟩ | ⟨qs, q, rest', hqs, hsource, hlt, hlt'⟩
      · refine Or.inl ⟨p :: qs, ?_, ?_⟩
        · rw [hdrop, List.cons_append, ← hqs]
        · rw [htake, List.flatMap_cons, hsource]
      · refine Or.inr ⟨p :: qs, q, rest', by rw [hqs]; rfl, ?_, ?_, ?_⟩
        · rw [ht, hsource, List.flatMap_cons]
          simp only [List.append_assoc]
        · rw [List.flatMap_cons, List.length_append]
          omega
        · rw [List.flatMap_cons, List.length_append]
          omega

/-- A piece with a place inside is code, or has a backslash or a backtick in front of the place. -/
theorem Piece.eq_code_of_inside {p : Piece} {k : Nat} (hpos : 0 < k) (hlt : k < p.source.length)
    (hlast : ∀ c ∈ (p.source.take k).getLast?, c ≠ '\\' ∧ c ≠ backtick) :
    ∃ n body, p = .code n body := by
  cases p with
  | plain c =>
    simp only [source, List.length_singleton] at hlt
    omega
  | escaped c =>
    have hk : k = 1 := by
      simp only [source, List.length_cons, List.length_nil] at hlt
      omega
    subst hk
    exact absurd rfl (hlast '\\' rfl).1
  | literal n =>
    simp only [source, List.length_replicate] at hlt
    have hmem : backtick ∈ ((List.replicate n backtick).take k).getLast? := by
      rw [List.take_replicate, Nat.min_eq_left hlt.le, List.getLast?_replicate,
        if_neg (by omega), Option.mem_some]
    exact absurd rfl (hlast _ hmem).2
  | code n body => exact ⟨n, body, rfl⟩

/-- **The scan starts afresh behind a plain character**, unless code reaches over that place. -/
theorem exists_pieces_cut {front rest : Text} (offset : Nat)
    (hlast : ∀ c ∈ front.getLast?, c ≠ '\\' ∧ c ≠ backtick)
    (hfree : ∀ span ∈ inlineCode offset (front ++ rest),
      ¬ (span.start < offset + front.length ∧ offset + front.length < span.stop)) :
    ∃ ps, pieces (front ++ rest) = ps ++ pieces rest ∧ ps.flatMap Piece.source = front := by
  rcases exists_piece_of_le (t := front ++ rest) (n := front.length) (by simp) with
    ⟨ps, hps, hsource⟩ | ⟨ps, p, rest', hps, ht, hlt, hlt'⟩
  · rw [List.drop_left] at hps
    rw [List.take_left] at hsource
    exact ⟨ps, hps, hsource⟩
  · exfalso
    obtain ⟨k, hk⟩ := Nat.exists_eq_add_of_le hlt.le
    have hfront := congrArg (List.take front.length) ht
    rw [List.take_left, hk, List.append_assoc, List.take_length_add_append,
      List.take_append_of_le_length (by omega)] at hfront
    have hinside (c) (hc : c ∈ (p.source.take k).getLast?) : c ≠ '\\' ∧ c ≠ backtick :=
      hlast c (by rw [hfront, List.getLast?_append, Option.mem_def.1 hc]; rfl)
    obtain ⟨n, body, rfl⟩ := Piece.eq_code_of_inside (by omega) (by omega) hinside
    refine hfree ⟨offset + (ps.flatMap Piece.source).length,
      offset + (ps.flatMap Piece.source).length + 2 * n + body.length⟩ ?_ ⟨?_, ?_⟩
    · rw [inlineCode, hps, locate_append]
      exact List.mem_append_right _ List.mem_cons_self
    · simpa using hlt
    · simp only [Piece.source, List.length_append, List.length_replicate] at hlt'
      simp only
      omega

end MentionCommands
