/-
  Inline code: backtick spans.

  A run of backticks opens a span, which the next run of the same length closes; a run that
  nothing closes is literal.  Outside spans a backslash takes the next character with it, so an
  escaped backtick opens nothing.

  * `Piece` and `pieces`: a text read from left to right as characters, escapes, literal runs and
    code spans; `flatMap_source_pieces`: the sources of the pieces are the text;
  * `inlineCode` are the spans of a text, `inlineCodeIn?` those of a range of a text.
-/
import MentionCommands.Text.Basic

namespace MentionCommands

/-- A range of offsets, from `start` up to `stop`. -/
structure Span where
  start : Nat
  stop : Nat
  deriving DecidableEq, Repr

/-- The character that delimits inline code. -/
def backtick : Char := '\x60'

/-- What a text consists of, as far as inline code goes. -/
inductive Piece where
  /-- A character that stands for itself. -/
  | plain (c : Char)
  /-- A backslash and the character that it takes along. -/
  | escaped (c : Char)
  /-- A run of backticks that nothing closes. -/
  | literal (length : Nat)
  /-- A body between two runs of backticks of one length. -/
  | code (length : Nat) (body : Text)
  deriving DecidableEq, Repr

/-- The characters of a piece. -/
def Piece.source : Piece → Text
  | plain c => [c]
  | escaped c => ['\\', c]
  | literal length => List.replicate length backtick
  | code length body =>
    List.replicate length backtick ++ body ++ List.replicate length backtick

/-- How many characters stand before the next run of exactly `length` backticks, counted from the
    start of the current run, of which `seen` backticks are already passed. -/
def closing? (length seen : Nat) : Text → Option Nat
  | [] => if seen = length then some 0 else none
  | c :: rest =>
    if c = backtick then closing? length (seen + 1) rest
    else if seen = length then some 0
    else (closing? length 0 rest).map (seen + 1 + ·)

/-- What `closing?` finds is a run of the given length. -/
theorem exists_of_closing? {length seen n : Nat} {t : Text} (h : closing? length seen t = some n) :
    ∃ behind, (List.replicate seen backtick ++ t).drop n =
      List.replicate length backtick ++ behind := by
  fun_induction closing? length seen t generalizing n with
  | case1 => cases h; exact ⟨[], by simp⟩
  | case2 => cases h
  | case3 seen rest ih =>
    obtain ⟨behind, hb⟩ := ih h
    exact ⟨behind, by rw [← hb, List.replicate_succ', List.append_assoc]; rfl⟩
  | case4 c rest hc => cases h; exact ⟨c :: rest, rfl⟩
  | case5 seen c rest hc hs ih =>
    obtain ⟨m, hm, rfl⟩ := Option.map_eq_some_iff.1 h
    obtain ⟨behind, hb⟩ := ih hm
    refine ⟨behind, ?_⟩
    rw [← hb, ← List.drop_drop]
    congr 1
    rw [← List.drop_drop, List.drop_left' (by simp)]
    rfl

/-- The pieces of a text; `skip` characters belong to a piece already read. -/
def piecesFrom (skip : Nat) : Text → List Piece
  | [] => []
  | c :: rest =>
    match skip with
    | skip + 1 => piecesFrom skip rest
    | 0 =>
      if c = '\\' then
        match rest with
        | [] => [.plain c]
        | d :: rest => .escaped d :: piecesFrom 0 rest
      else if c = backtick then
        let length := Text.run backtick (c :: rest)
        let behind := (c :: rest).drop length
        match closing? length 0 behind with
        | some inner => .code length (behind.take inner) :: piecesFrom (2 * length + inner - 1) rest
        | none => .literal length :: piecesFrom (length - 1) rest
      else .plain c :: piecesFrom 0 rest

/-- The pieces of a text. -/
def pieces (t : Text) : List Piece := piecesFrom 0 t

theorem piecesFrom_eq_pieces (skip : Nat) (t : Text) :
    piecesFrom skip t = pieces (t.drop skip) := by
  induction t generalizing skip with
  | nil => cases skip <;> rfl
  | cons c rest ih =>
    cases skip with
    | zero => rfl
    | succ skip => simpa [piecesFrom] using ih skip

theorem pieces_escaped (d : Char) (rest : Text) :
    pieces ('\\' :: d :: rest) = .escaped d :: pieces rest := rfl

theorem pieces_plain {c : Char} (rest : Text) (h : c ≠ '\\') (h' : c ≠ backtick) :
    pieces (c :: rest) = .plain c :: pieces rest := by
  rw [pieces, piecesFrom.eq_def]
  simp only [if_neg h, if_neg h']
  rfl

/-- A run of backticks makes a span of code, if something closes it, and else a literal run. -/
theorem pieces_run {t : Text} (h : 0 < Text.run backtick t) :
    pieces t =
      match closing? (Text.run backtick t) 0 (t.drop (Text.run backtick t)) with
      | some inner =>
        .code (Text.run backtick t) ((t.drop (Text.run backtick t)).take inner) ::
          pieces (t.drop (2 * Text.run backtick t + inner))
      | none => .literal (Text.run backtick t) :: pieces (t.drop (Text.run backtick t)) := by
  match t with
  | [] => cases h
  | c :: rest =>
    have hc : c = backtick := by
      by_cases hc : c = backtick
      · exact hc
      · simp [Text.run, hc] at h
    subst hc
    have hb : backtick ≠ '\\' := by decide
    obtain ⟨n, hn⟩ := Nat.exists_eq_succ_of_ne_zero (Nat.pos_iff_ne_zero.1 h)
    have hskip (inner : Nat) : 2 * (n + 1) + inner = 2 * (n + 1) + inner - 1 + 1 := by omega
    rw [pieces, piecesFrom.eq_def]
    simp only [if_neg hb, if_true, hn, Nat.succ_eq_add_one]
    split
    · rename_i inner _
      rw [piecesFrom_eq_pieces, hskip, List.drop_succ_cons]
      rfl
    · rw [piecesFrom_eq_pieces]
      rfl

/-- **The sources of the pieces are the text.** -/
theorem flatMap_source_pieces (t : Text) : (pieces t).flatMap Piece.source = t := by
  by_cases h : 0 < Text.run backtick t
  · have hrun := Text.replicate_run_append backtick t
    rw [pieces_run h]
    split
    · rename_i inner hinner
      obtain ⟨behind, hb⟩ := exists_of_closing? hinner
      have ih := flatMap_source_pieces (t.drop (2 * Text.run backtick t + inner))
      have hd : t.drop (2 * Text.run backtick t + inner) = behind := by
        rw [List.replicate_zero, List.nil_append] at hb
        have hsum : 2 * Text.run backtick t + inner =
            Text.run backtick t + (inner + Text.run backtick t) := by omega
        rw [hsum, ← List.drop_drop, ← List.drop_drop, hb, List.drop_left' (by simp)]
      rw [List.replicate_zero, List.nil_append] at hb
      rw [List.flatMap_cons, ih, hd, Piece.source, List.append_assoc, ← hb, List.append_assoc,
        List.take_append_drop, hrun]
    · rw [List.flatMap_cons, flatMap_source_pieces (t.drop (Text.run backtick t)), Piece.source,
        hrun]
  · cases t with
    | nil => rfl
    | cons c rest =>
      have hc : c ≠ backtick := by
        rintro rfl
        simp [Text.run] at h
      by_cases hs : c = '\\'
      · subst hs
        cases rest with
        | nil => rfl
        | cons d rest =>
          rw [pieces_escaped, List.flatMap_cons, flatMap_source_pieces rest]
          rfl
      · rw [pieces_plain rest hs hc, List.flatMap_cons, flatMap_source_pieces rest]
        rfl
termination_by t.length
decreasing_by
  all_goals simp_all only [List.length_drop, List.length_cons]
  · have := Text.run_le_length backtick t
    omega
  · have := Text.run_le_length backtick t
    omega
  · omega
  · omega

/-- The ranges of the code spans among pieces that start at an offset. -/
def locate (offset : Nat) : List Piece → List Span
  | [] => []
  | .code length body :: rest =>
    let stop := offset + 2 * length + body.length
    ⟨offset, stop⟩ :: locate stop rest
  | piece :: rest => locate (offset + piece.source.length) rest

/-- The inline code of a text whose first character has the given offset. -/
def inlineCode (offset : Nat) (t : Text) : List Span := locate offset (pieces t)

/-- Whether a text ends in a backslash that takes no character along. -/
def endsOpen (t : Text) : Bool := (pieces t).getLast? == some (.plain '\\')

/-- The inline code between two offsets of a text, or none if it would have to be read past the
    end: one character is missing unless a last backslash takes that very one along. -/
def inlineCodeIn? (t : Text) (start stop : Nat) : Option (List Span) :=
  if stop ≤ t.length ∨ stop ≤ start then some (inlineCode start (t.slice start stop))
  else if stop = t.length + 1 ∧ endsOpen (t.drop start) then some (inlineCode start (t.drop start))
  else none

end MentionCommands
