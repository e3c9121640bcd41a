/-
  Backtracking: going back to saved positions, with any number of copies of a stream.

  Here the operations of a stream are programs that move it: a look at the next token reads it and
  goes back, also if that fails half-way.  A family are the streams that stem from one stream, with
  the positions that have been saved in any of them.

  * `peek_run` and `eat_run`: the programs do what `TokenStream.peek` and `TokenStream.eat` say;
  * `Operation.run_peek`, `Operation.snd_run_of_failed`, `Operation.snd_run_eat` and
    `Operation.streams_run_of_ne`: what an operation leaves as it was;
  * `TokenStream.boundaries`: the position of a stream and the ends of its tokens;
    `TokenStream.next_of_boundary`: what stands next there is the token that follows in the stream;
  * `Family.OnBoundaries`: all streams and saved positions of a family stand there; each operation
    keeps this (`OnBoundaries.run`), and so do all (`OnBoundaries.after`);
  * `backtracking_on_boundaries`: the same for all operations on the copies of one stream.
-/
import MentionCommands.Proofs.Token.Tiling

namespace MentionCommands

/-! ## Boundaries -/

namespace TokenStream

/-- The position of a stream, and the ends of the tokens ahead of it. -/
def boundaries (s : TokenStream) : List Nat := s.position :: s.tokens.map Token.stop

variable {s s' : TokenStream} {ts us : List Token} {n p : Nat}

theorem reads_append_iff :
    s.Reads (ts ++ us) s' ↔ ∃ s₁, s.Reads ts s₁ ∧ s₁.Reads us s' := by
  induction ts generalizing s with
  | nil => simp [reads_nil_iff]
  | cons t ts ih =>
    simp only [List.cons_append, reads_cons_iff, ih]
    constructor
    · rintro ⟨s₁, hnext, s₂, hts, hus⟩
      exact ⟨s₂, ⟨s₁, hnext, hts⟩, hus⟩
    · rintro ⟨s₂, ⟨s₁, hnext, hts⟩, hus⟩
      exact ⟨s₁, hnext, s₂, hts, hus⟩

/-- What is read moves a stream, and changes nothing else. -/
theorem Reads.eq_restore (h : s.Reads ts s') : s' = s.restore s'.position := by
  induction h with
  | nil => rfl
  | cons hnext _ ih =>
    obtain ⟨k, -, -, rfl⟩ := next_eq_some_iff.1 hnext
    exact ih

/-- Reading on from a boundary gives the tokens behind it. -/
theorem reads_of_boundary (h : s.boundaries[n]? = some p) :
    s.Reads (s.tokens.take n) (s.restore p) ∧ (s.restore p).Reads (s.tokens.drop n) s.exhaust := by
  have hreads := s.reads_tokens
  rw [← List.take_append_drop n s.tokens] at hreads
  obtain ⟨s₁, hfront, hback⟩ := reads_append_iff.1 hreads
  obtain rfl : s₁ = s.restore p := by
    rw [hfront.eq_restore]
    congr 1
    cases n with
    | zero =>
      rw [List.take_zero] at hfront
      rw [← reads_nil_iff.1 hfront]
      exact Option.some.inj h
    | succ n =>
      have htoken : s.tokens[n]?.map Token.stop = some p := by
        rw [← List.getElem?_map]
        exact h
      obtain ⟨k, hk, rfl⟩ := Option.map_eq_some_iff.1 htoken
      rw [List.take_add_one, hk] at hfront
      have hlast := hfront.position_eq (by simp)
      simpa using hlast.symm
  exact ⟨hfront, hback⟩

/-- **What stands next at a boundary** is the token that follows in the stream; behind the last
    token nothing does, or what keeps the tokens from reaching the end of the text. -/
theorem next_of_boundary (h : s.boundaries[n]? = some p) :
    (s.restore p).next = match s.tokens[n]? with
      | some k => .ok (some (k, s.restore k.stop))
      | none => match s.fault? with
        | none => .ok none
        | some error => .error error := by
  obtain ⟨-, hback⟩ := reads_of_boundary h
  cases hk : s.tokens[n]? with
  | none =>
    rw [List.drop_eq_nil_of_le (List.getElem?_eq_none_iff.1 hk)] at hback
    rw [reads_nil_iff.1 hback]
    exact s.next_exhaust
  | some k =>
    obtain ⟨hlt, hget⟩ := List.getElem?_eq_some_iff.1 hk
    rw [List.drop_eq_getElem_cons hlt, hget] at hback
    obtain ⟨s₁, hnext, -⟩ := reads_cons_iff.1 hback
    have hone : (s.restore p).Reads [k] s₁ := .cons hnext (.nil s₁)
    have hstop : k.stop = s₁.position :=
      Option.some.inj (hone.position_eq (List.cons_ne_nil k []))
    rw [hnext, hone.eq_restore, ← hstop]
    rfl

end TokenStream

/-! ## Programs that move a stream -/

namespace Backtracking

/-- A program that moves a stream, and may fail; a failure undoes nothing by itself. -/
abbrev Program (α : Type) := ExceptT Diagnostic (StateM TokenStream) α

/-- What a program started at a stream gives, and the stream that it leaves. -/
def Program.run {α : Type} (x : Program α) (s : TokenStream) : Except Diagnostic α × TokenStream :=
  StateT.run (ExceptT.run x) s

namespace Program

variable {α β : Type} (x : Program α) (f : α → Program β) (s : TokenStream)

theorem run_get : (get : Program TokenStream).run s = (.ok s, s) := rfl

/-- What follows a program runs in the stream that the program leaves, unless that fails. -/
theorem run_bind : (x >>= f).run s = match x.run s with
    | (.ok a, behind) => (f a).run behind
    | (.error error, behind) => (.error error, behind) := by
  change (match x.run s with
    | (result, behind) => StateT.run (ExceptT.bindCont f result) behind) = _
  rcases x.run s with ⟨error | a, behind⟩ <;> rfl

/-- What is done at last is done also if the program fails. -/
theorem run_finally (g : TokenStream → TokenStream) :
    run (try x finally modify g) s = ((x.run s).1, g (x.run s).2) := by
  have hfinally (result : Except Diagnostic α) (behind : TokenStream)
      (hx : x s = (result, behind)) : run (try x finally modify g) s = (result, g behind) := by
    simp only [run, ExceptT.run, StateT.run, tryFinally, tryFinally', Functor.map, ExceptT.map,
      ExceptT.mk, bind, StateT.bind, pure, hx]
    cases result <;> rfl
  exact hfinally _ _ rfl

end Program

/-- Reads the next token, if there is one. -/
def next : Program (Option Token) := do
  match (← get).next with
  | .error error => throw error
  | .ok none => return none
  | .ok (some (token, behind)) =>
    set behind
    return some token

/-- The next token: reads it and goes back, whatever comes of it. -/
def peek : Program (Option Token) := do
  let position := (← get).position
  try next
  finally modify (·.restore position)

/-- Reads the next token if that has the kind, and the value if one is given, and says whether it
    does. -/
def eat (kind : TokenKind) (value : Option Text) : Program Bool := do
  match ← peek with
  | none => return false
  | some token =>
    if TokenStream.accepts kind value token then
      let _ ← next
      return true
    else return false

theorem next_run (s : TokenStream) : next.run s = match s.next with
    | .error error => (.error error, s)
    | .ok none => (.ok none, s)
    | .ok (some (token, behind)) => (.ok (some token), behind) := by
  rw [next, Program.run_bind, Program.run_get]
  dsimp only
  rcases s.next with error | _ | ⟨token, behind⟩ <;> rfl

/-- **A look at the next token moves no stream**, not even where the token cannot be cut off. -/
theorem peek_run (s : TokenStream) : peek.run s = (s.peek, s) := by
  rw [peek, Program.run_bind, Program.run_get]
  simp only [Program.run_finally, next_run, TokenStream.peek]
  rcases hnext : s.next with error | _ | ⟨token, behind⟩
  · rfl
  · rfl
  · obtain ⟨k, -, rfl, rfl⟩ := TokenStream.next_eq_some_iff.1 hnext
    rfl

theorem eat_run (s : TokenStream) (kind : TokenKind) (value : Option Text) :
    (eat kind value).run s = match s.eat kind value with
      | .error error => (.error error, s)
      | .ok none => (.ok false, s)
      | .ok (some behind) => (.ok true, behind) := by
  rw [eat, Program.run_bind, peek_run, TokenStream.peek, TokenStream.eat]
  rcases hnext : s.next with error | _ | ⟨token, behind⟩
  · rfl
  · rfl
  · simp only [Except.map, Option.map_some, Option.filter_some]
    split_ifs
    · rw [Program.run_bind, next_run, hnext]
      rfl
    · rfl

/-! ## Families -/

/-- Streams that stem from one stream, and the positions that have been saved in them, both in the
    order in which they were made. -/
structure Family where
  streams : List TokenStream
  saved : List Nat
  deriving DecidableEq, Repr

/-- The family of one stream. -/
def Family.of (s : TokenStream) : Family := ⟨[s], []⟩

/-- What is done with a stream of a family; streams and saved positions go by their numbers. -/
inductive Operation where
  | next (i : Nat)
  | peek (i : Nat)
  | eat (i : Nat) (kind : TokenKind) (value : Option Text)
  | snapshot (i : Nat)
  /-- Goes back to a saved position, no matter in which stream it was saved. -/
  | restore (i n : Nat)
  | copy (i : Nat)
  deriving DecidableEq, Repr

/-- The stream with which something is done. -/
def Operation.target : Operation → Nat
  | next i | peek i | eat i _ _ | snapshot i | restore i _ | copy i => i

/-- What an operation answers. -/
inductive Answer where
  | token (token? : Option Token)
  | eaten (read : Bool)
  | done
  | failed (error : Diagnostic)
  /-- No stream, or no saved position, has the number. -/
  | unknown
  deriving DecidableEq, Repr

/-- Runs a program on a stream of a family. -/
def Family.runAt {α : Type} (F : Family) (i : Nat) (x : Program α) (answer : α → Answer) :
    Answer × Family :=
  match F.streams[i]? with
  | none => (.unknown, F)
  | some s =>
    let (result, moved) := x.run s
    let answered := match result with
      | .ok a => answer a
      | .error error => .failed error
    (answered, { F with streams := F.streams.set i moved })

/-- The answer to an operation, and the family that it leaves. -/
def Operation.run (F : Family) : Operation → Answer × Family
  | next i => F.runAt i Backtracking.next .token
  | peek i => F.runAt i Backtracking.peek .token
  | eat i kind value => F.runAt i (Backtracking.eat kind value) .eaten
  | snapshot i =>
    match F.streams[i]? with
    | none => (.unknown, F)
    | some s => (.done, { F with saved := F.saved ++ [s.position] })
  | restore i n =>
    match F.saved[n]? with
    | none => (.unknown, F)
    | some position => F.runAt i (modify (·.restore position)) fun _ => .done
  | copy i =>
    match F.streams[i]? with
    | none => (.unknown, F)
    | some s => (.done, { F with streams := F.streams ++ [s] })

/-- The family that operations leave, one after another. -/
def Family.after (F : Family) : List Operation → Family
  | [] => F
  | op :: ops => (op.run F).2.after ops

section
variable {α : Type} {F : Family} {s : TokenStream} {x : Program α} {answer : α → Answer} {i : Nat}

/-! ### What operations leave -/

namespace Family

theorem runAt_cases (F : Family) (i : Nat) (x : Program α) (answer : α → Answer) :
    (F.streams[i]? = none ∧ F.runAt i x answer = (.unknown, F)) ∨
    ∃ s, F.streams[i]? = some s ∧ F.runAt i x answer =
      (match (x.run s).1 with
        | .ok a => answer a
        | .error error => .failed error, { F with streams := F.streams.set i (x.run s).2 }) := by
  rw [runAt]
  cases F.streams[i]? with
  | none => exact Or.inl ⟨rfl, rfl⟩
  | some s => exact Or.inr ⟨s, rfl, rfl⟩

/-- A program that leaves a stream where it is leaves the family as it was. -/
theorem set_of_unmoved {s' : TokenStream} (h : F.streams[i]? = some s) (hs : s' = s) :
    { F with streams := F.streams.set i s' } = F := by
  obtain ⟨hlt, hget⟩ := List.getElem?_eq_some_iff.1 h
  rw [hs, ← hget, List.set_getElem_self]

/-- Other streams stay where they are. -/
theorem streams_runAt_of_ne {j : Nat} (hne : j ≠ i) :
    (F.runAt i x answer).2.streams[j]? = F.streams[j]? := by
  obtain ⟨-, hrun⟩ | ⟨s, -, hrun⟩ := F.runAt_cases i x answer
  · rw [hrun]
  · rw [hrun]
    exact List.getElem?_set_ne hne.symm

end Family

/-- **An operation on one stream leaves all others where they are.** -/
theorem Operation.streams_run_of_ne (op : Operation) {j : Nat} (hj : F.streams[j]? = some s)
    (hne : j ≠ op.target) : (op.run F).2.streams[j]? = some s := by
  cases op with
  | next | peek | eat => exact (Family.streams_runAt_of_ne hne).trans hj
  | snapshot i =>
    rw [run]
    cases F.streams[i]? <;> exact hj
  | restore i n =>
    rw [run]
    cases F.saved[n]? with
    | none => exact hj
    | some position => exact (Family.streams_runAt_of_ne hne).trans hj
  | copy i =>
    rw [run]
    cases F.streams[i]? with
    | none => exact hj
    | some s' =>
      rw [List.getElem?_append_left (List.getElem?_eq_some_iff.1 hj).1]
      exact hj

/-- **A look answers what reading on would**, and changes nothing. -/
theorem Operation.run_peek (F : Family) (i : Nat) :
    (peek i).run F = (((next i).run F).1, F) := by
  rw [run, run, Family.runAt, Family.runAt]
  cases hs : F.streams[i]? with
  | none => rfl
  | some s =>
    refine Prod.ext ?_ (Family.set_of_unmoved hs (congrArg Prod.snd (peek_run s)))
    simp only [peek_run, next_run, TokenStream.peek]
    rcases s.next with _ | _ | ⟨token, behind⟩ <;> rfl

/-! ### What fails -/

/-- A program stays where it is if it fails. -/
def FailsInPlace (x : Program α) : Prop := ∀ s error, (x.run s).1 = .error error → (x.run s).2 = s

theorem failsInPlace_next : FailsInPlace next := by
  intro s error h
  rw [next_run] at h ⊢
  rcases hnext : s.next with _ | _ | ⟨token, behind⟩
  · rfl
  · rfl
  · rw [hnext] at h
    cases h

theorem failsInPlace_eat (kind : TokenKind) (value : Option Text) :
    FailsInPlace (eat kind value) := by
  intro s error h
  rw [eat_run] at h ⊢
  rcases heat : s.eat kind value with _ | _ | behind
  · rfl
  · rfl
  · rw [heat] at h
    cases h

/-- A program that fails leaves the family as it was. -/
theorem Family.snd_runAt_of_failed (hx : FailsInPlace x) {error : Diagnostic}
    (hanswer : ∀ a, answer a ≠ .failed error) (h : (F.runAt i x answer).1 = .failed error) :
    (F.runAt i x answer).2 = F := by
  obtain ⟨-, hrun⟩ | ⟨s, hs, hrun⟩ := F.runAt_cases i x answer
  · rw [hrun]
  · rw [hrun] at h ⊢
    cases hresult : (x.run s).1 with
    | ok a =>
      rw [hresult] at h
      exact absurd h (hanswer a)
    | error => exact set_of_unmoved hs (hx s _ hresult)

/-- **What fails leaves everything as it was.** -/
theorem Operation.snd_run_of_failed (op : Operation) {error : Diagnostic}
    (h : (op.run F).1 = .failed error) : (op.run F).2 = F := by
  cases op with
  | next => exact Family.snd_runAt_of_failed failsInPlace_next nofun h
  | peek i => exact congrArg Prod.snd (run_peek F i)
  | eat _ kind value => exact Family.snd_runAt_of_failed (failsInPlace_eat kind value) nofun h
  | snapshot i =>
    rw [run] at h
    cases hs : F.streams[i]? <;> rw [hs] at h <;> cases h
  | restore i n =>
    rw [run] at h ⊢
    cases hp : F.saved[n]? with
    | none => rfl
    | some position =>
      rw [hp] at h
      exact Family.snd_runAt_of_failed (fun s error h => by cases h) nofun h
  | copy i =>
    rw [run] at h
    cases hs : F.streams[i]? <;> rw [hs] at h <;> cases h

/-- **What is not eaten leaves everything as it was.** -/
theorem Operation.snd_run_eat (kind : TokenKind) (value : Option Text)
    (h : ((eat i kind value).run F).1 = .eaten false) : ((eat i kind value).run F).2 = F := by
  rw [run] at h ⊢
  obtain ⟨-, hrun⟩ | ⟨s, hs, hrun⟩ :=
    F.runAt_cases i (Backtracking.eat kind value) Answer.eaten
  · rw [hrun]
  · rw [hrun] at h ⊢
    refine Family.set_of_unmoved hs ?_
    rw [eat_run] at h ⊢
    rcases heat : s.eat kind value with _ | _ | behind
    · rfl
    · rfl
    · rw [heat] at h
      cases h

end

/-! ## What is reached -/

/-- The streams and the saved positions of a family stand at boundaries of a stream. -/
structure Family.OnBoundaries (s : TokenStream) (F : Family) : Prop where
  streams : ∀ s' ∈ F.streams, ∃ p ∈ s.boundaries, s' = s.restore p
  saved : ∀ p ∈ F.saved, p ∈ s.boundaries

/-- A program moves a stream from boundaries to boundaries. -/
def Keeps {α : Type} (s : TokenStream) (x : Program α) : Prop :=
  ∀ p ∈ s.boundaries, ∃ q ∈ s.boundaries, (x.run (s.restore p)).2 = s.restore q

section
variable {α : Type} {F : Family} {s : TokenStream} {x : Program α} {answer : α → Answer}
  {i p : Nat}

theorem exists_boundary_of_next {k : Token} {s' : TokenStream} (hp : p ∈ s.boundaries)
    (h : (s.restore p).next = .ok (some (k, s'))) : ∃ q ∈ s.boundaries, s' = s.restore q := by
  obtain ⟨n, hn⟩ := List.mem_iff_getElem?.1 hp
  have hnext := TokenStream.next_of_boundary hn
  cases hk : s.tokens[n]? with
  | none =>
    rw [h, hk] at hnext
    cases hfault : s.fault? <;> rw [hfault] at hnext <;> cases hnext
  | some j =>
    rw [h, hk] at hnext
    cases hnext
    exact ⟨k.stop, List.mem_cons_of_mem _ (List.mem_map_of_mem (List.mem_of_getElem? hk)), rfl⟩

/-- What is eaten is what stands next. -/
theorem exists_next_of_eat {kind : TokenKind} {value : Option Text} {s' : TokenStream}
    (h : s.eat kind value = .ok (some s')) : ∃ k, s.next = .ok (some (k, s')) := by
  rw [TokenStream.eat] at h
  rcases hnext : s.next with _ | _ | ⟨k, behind⟩
  · rw [hnext] at h
    cases h
  · rw [hnext] at h
    cases h
  · rw [hnext] at h
    simp only [Except.map, Option.filter_some] at h
    split_ifs at h
    · cases h
      exact ⟨k, rfl⟩
    · cases h

theorem keeps_next (s : TokenStream) : Keeps s next := by
  intro p hp
  rw [next_run]
  rcases hnext : (s.restore p).next with _ | _ | ⟨token, behind⟩
  · exact ⟨p, hp, rfl⟩
  · exact ⟨p, hp, rfl⟩
  · exact exists_boundary_of_next hp hnext

theorem keeps_peek (s : TokenStream) : Keeps s peek := fun p hp =>
  ⟨p, hp, congrArg Prod.snd (peek_run _)⟩

theorem keeps_eat (s : TokenStream) (kind : TokenKind) (value : Option Text) :
    Keeps s (eat kind value) := by
  intro p hp
  rw [eat_run]
  rcases heat : (s.restore p).eat kind value with _ | _ | behind
  · exact ⟨p, hp, rfl⟩
  · exact ⟨p, hp, rfl⟩
  · obtain ⟨k, hnext⟩ := exists_next_of_eat heat
    exact exists_boundary_of_next hp hnext

theorem keeps_restore (hp : p ∈ s.boundaries) : Keeps s (modify (·.restore p) : Program PUnit) :=
  fun _ _ => ⟨p, hp, rfl⟩

namespace Family.OnBoundaries

theorem of (s : TokenStream) : OnBoundaries s (.of s) where
  streams := by
    intro s' hs'
    exact ⟨s.position, List.mem_cons_self, List.mem_singleton.1 hs'⟩
  saved := nofun

theorem runAt (h : OnBoundaries s F) (hx : Keeps s x) : OnBoundaries s (F.runAt i x answer).2 := by
  obtain ⟨-, hrun⟩ | ⟨s', hs', hrun⟩ := F.runAt_cases i x answer
  · rwa [hrun]
  · rw [hrun]
    refine ⟨fun s'' hs'' => ?_, h.saved⟩
    rcases List.mem_or_eq_of_mem_set hs'' with hs'' | rfl
    · exact h.streams s'' hs''
    · obtain ⟨p, hp, rfl⟩ := h.streams s' (List.mem_of_getElem? hs')
      exact hx p hp

/-- **An operation keeps all streams and saved positions at boundaries.** -/
theorem run (h : OnBoundaries s F) (op : Operation) : OnBoundaries s (op.run F).2 := by
  cases op with
  | next => exact h.runAt (keeps_next s)
  | peek => exact h.runAt (keeps_peek s)
  | eat _ kind value => exact h.runAt (keeps_eat s kind value)
  | snapshot i =>
    rw [Operation.run]
    cases hs : F.streams[i]? with
    | none => exact h
    | some s' =>
      obtain ⟨p, hp, rfl⟩ := h.streams s' (List.mem_of_getElem? hs)
      refine ⟨h.streams, fun q hq => ?_⟩
      rcases List.mem_append.1 hq with hq | hq
      · exact h.saved q hq
      · exact List.mem_singleton.1 hq ▸ hp
  | restore i n =>
    rw [Operation.run]
    cases hp : F.saved[n]? with
    | none => exact h
    | some position => exact h.runAt (keeps_restore (h.saved _ (List.mem_of_getElem? hp)))
  | copy i =>
    rw [Operation.run]
    cases hs : F.streams[i]? with
    | none => exact h
    | some s' =>
      refine ⟨fun s'' hs'' => ?_, h.saved⟩
      rcases List.mem_append.1 hs'' with hs'' | hs''
      · exact h.streams s'' hs''
      · exact List.mem_singleton.1 hs'' ▸ h.streams s' (List.mem_of_getElem? hs)

/-- So do all operations, one after another. -/
theorem after (h : OnBoundaries s F) (ops : List Operation) : OnBoundaries s (F.after ops) := by
  induction ops generalizing F with
  | nil => exact h
  | cons op ops ih => exact ih (h.run op)

end Family.OnBoundaries

/-- Reading on at a boundary answers with the token that follows in the stream. -/
theorem Operation.run_next {n : Nat} (hs : F.streams[i]? = some (s.restore p))
    (hp : s.boundaries[n]? = some p) :
    (next i).run F = match s.tokens[n]? with
      | some k => (.token (some k), { F with streams := F.streams.set i (s.restore k.stop) })
      | none => match s.fault? with
        | none => (.token none, F)
        | some error => (.failed error, F) := by
  rw [run, Family.runAt, hs]
  have hnext := TokenStream.next_of_boundary hp
  have hsame : { F with streams := F.streams.set i (s.restore p) } = F :=
    Family.set_of_unmoved hs rfl
  cases hk : s.tokens[n]? with
  | some k =>
    rw [hk] at hnext
    simp only [next_run, hnext]
  | none =>
    rw [hk] at hnext
    cases hfault : s.fault? with
    | none =>
      rw [hfault] at hnext
      simp only [next_run, hnext, hsame]
    | some error =>
      rw [hfault] at hnext
      simp only [next_run, hnext, hsame]

end

/-- **Whatever is done with a stream and its copies, each of them stands at the start or behind one
    of the tokens that plain reading gives, and reading on there gives the token that follows; a
    look, a token that is not eaten, and a failure change nothing, and no operation moves another
    stream.** -/
theorem backtracking_on_boundaries (t : Text) (offset : Nat) (ops : List Operation) :
    let s := TokenStream.ofText t offset
    let F := (Family.of s).after ops
    (∀ s' ∈ F.streams, ∃ p ∈ s.boundaries, s' = s.restore p) ∧
    (∀ (i n p : Nat), F.streams[i]? = some (s.restore p) → s.boundaries[n]? = some p →
      (Operation.next i).run F = match s.tokens[n]? with
        | some k => (.token (some k), { F with streams := F.streams.set i (s.restore k.stop) })
        | none => match s.fault? with
          | none => (.token none, F)
          | some error => (.failed error, F)) ∧
    (∀ i, (Operation.peek i).run F = (((Operation.next i).run F).1, F)) ∧
    (∀ i kind value, ((Operation.eat i kind value).run F).1 = .eaten false →
      ((Operation.eat i kind value).run F).2 = F) ∧
    (∀ (op : Operation) (error : Diagnostic), (op.run F).1 = .failed error → (op.run F).2 = F) ∧
    ∀ (op : Operation) (j : Nat) (s' : TokenStream), F.streams[j]? = some s' → j ≠ op.target →
      (op.run F).2.streams[j]? = some s' := by
  intro s F
  have h : F.OnBoundaries s := (Family.OnBoundaries.of s).after ops
  exact ⟨h.streams, fun i n p => Operation.run_next, Operation.run_peek F,
    fun i => Operation.snd_run_eat, fun op error => op.snd_run_of_failed,
    fun op j s' => op.streams_run_of_ne⟩

end Backtracking

end MentionCommands
