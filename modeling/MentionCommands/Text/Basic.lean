/-
  Texts: sequences of characters, addressed by offsets that count characters.

  * `slice` clamps to the text; `slice_zero`, `length_slice` are its two laws;
  * `run` measures the run of a character at the front, which `replicate_run_append` parts from the
    text behind it and `run_append_of_head` puts together with it;
  * `replaceAll` replaces from left to right, each match once; `replaceFrom_eq_cons`: a character
    at which no match starts stays;
  * `indexOf?` finds the first place where a text occurs; `splitOn` cuts at a character.
-/

namespace MentionCommands

/-- A text is a sequence of characters; every offset and length counts characters. -/
abbrev Text := List Char

namespace Text

/-- The characters of `t` from `start` up to `stop`, clamped to the text. -/
def slice (t : Text) (start stop : Nat) : Text := (t.drop start).take (stop - start)

theorem slice_zero (t : Text) (stop : Nat) : slice t 0 stop = t.take stop := by simp [slice]

theorem length_slice (t : Text) (start stop : Nat) :
    (slice t start stop).length = min (stop - start) (t.length - start) := by
  simp [slice]

/-- The length of the run of one character at the front. -/
def run (c : Char) (t : Text) : Nat := (t.takeWhile (· == c)).length

theorem run_le_length (c : Char) (t : Text) : run c t ≤ t.length :=
  (List.takeWhile_prefix _).length_le

/-- A text is the run of a character at its front and what follows. -/
theorem replicate_run_append (c : Char) (t : Text) :
    List.replicate (run c t) c ++ t.drop (run c t) = t := by
  induction t with
  | nil => rfl
  | cons d t ih =>
    by_cases h : d = c
    · subst h
      have hrun : run d (d :: t) = run d t + 1 := by simp [run]
      simp only [hrun, List.replicate_succ, List.drop_succ_cons, List.cons_append, ih]
    · simp [run, h]

/-- Another character stands behind a run. -/
theorem head?_drop_run (c : Char) (t : Text) : (t.drop (run c t)).head? ≠ some c := by
  induction t with
  | nil => exact nofun
  | cons d t ih =>
    by_cases h : d = c
    · subst h
      simpa [run] using ih
    · simp [run, h]

/-- A run goes no further than another character. -/
theorem run_append_of_head {c : Char} {u : Text} (h : u.head? ≠ some c) (t : Text) :
    run c (t ++ u) = run c t := by
  induction t with
  | nil =>
    cases u with
    | nil => rfl
    | cons d u =>
      have hd : d ≠ c := fun hd => h (congrArg some hd)
      simp [run, hd]
  | cons d t ih =>
    by_cases h : d = c
    · subst h
      simpa [run] using ih
    · simp [run, h]

theorem run_replicate (c : Char) (n : Nat) : run c (List.replicate n c) = n := by simp [run]

theorem run_replicate_append {c : Char} {u : Text} (h : u.head? ≠ some c) (n : Nat) :
    run c (List.replicate n c ++ u) = n := by rw [run_append_of_head h, run_replicate]

/-- The decimal digits of a number. -/
def ofNat (n : Nat) : Text := Nat.toDigits 10 n

/-- The texts in order, with `separator` between any two neighbours. -/
def join (separator : Text) : List Text → Text
  | [] => []
  | [t] => t
  | t :: ts => t ++ separator ++ join separator ts

/-- Replaces `target` from left to right; `skip` characters belong to a match already replaced. -/
def replaceFrom (target replacement : Text) (skip : Nat) : Text → Text
  | [] => []
  | c :: rest =>
    match skip with
    | skip + 1 => replaceFrom target replacement skip rest
    | 0 =>
      if target.isPrefixOf (c :: rest) then
        replacement ++ replaceFrom target replacement (target.length - 1) rest
      else c :: replaceFrom target replacement 0 rest

theorem replaceFrom_eq_cons {target : Text} (replacement : Text) {c : Char} {rest : Text}
    (h : ¬ target <+: c :: rest) :
    replaceFrom target replacement 0 (c :: rest) = c :: replaceFrom target replacement 0 rest := by
  rw [replaceFrom, if_neg]
  rwa [List.isPrefixOf_iff_prefix]

/-- Every occurrence of `target` replaced, found from left to right without overlap. -/
def replaceAll (t target replacement : Text) : Text := replaceFrom target replacement 0 t

/-- The offset of the first occurrence of `target`. -/
def indexOf? (target : Text) : Text → Option Nat
  | [] => if target.isEmpty then some 0 else none
  | c :: rest =>
    if target.isPrefixOf (c :: rest) then some 0 else (indexOf? target rest).map (· + 1)

/-- Whether `target` occurs. -/
def includes (t target : Text) : Bool := (indexOf? target t).isSome

/-- The parts of a text between the characters equal to `mark`. -/
def splitOn (mark : Char) : Text → List Text
  | [] => [[]]
  | c :: rest =>
    if c = mark then [] :: splitOn mark rest
    else match splitOn mark rest with
      | [] => [[c]]
      | part :: parts => (c :: part) :: parts

/-- The text without the characters of a class at its two ends. -/
def trim (p : Char → Bool) (t : Text) : Text :=
  ((t.dropWhile p).reverse.dropWhile p).reverse

/-- The text with its ASCII capitals made small. -/
def toLowerAscii (t : Text) : Text := t.map Char.toLower

end Text

end MentionCommands
