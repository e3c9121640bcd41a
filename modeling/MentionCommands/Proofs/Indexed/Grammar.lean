/-
  Grammars that read by index.

  A program moves an offset through a text and may refuse with a diagnostic.  It has no result at
  all where it would break: a look-up out of range, a command without changes, or a loop that never
  ends.

  * `Program` and `run`; `peek`, `next`, `eat` and `fail` are its steps;
  * `assign` and `relabel` are the two grammars, written with these steps;
  * `Yields`: a program does what a reading says;
  * `attempt?_assign` and `attempt?_relabel`: at every offset both have a result, the one of
    `Grammar.attempt`.
-/
import MentionCommands.Grammar.BuiltIn
import MentionCommands.Proofs.Grammar.Keyword
import MentionCommands.Proofs.Indexed.Token

namespace MentionCommands.Indexed

/-! ## Programs -/

/-- A program that moves an offset, and may refuse or break. -/
abbrev Program (α : Type) := ExceptT Diagnostic (StateT Nat Option) α

/-- What a program started at an offset gives, and the offset at which it stops. -/
def run {α : Type} (x : Program α) (offset : Nat) : Option (Except Diagnostic α × Nat) := x offset

section
variable (t : Text)

/-- The next token. -/
def peek : Program (Option Token) := do
  match ← token? t (← get) with
  | .ok token => return token
  | .error fault => throw fault

/-- Reads the next token. -/
def next : Program (Option Token) := do
  let token ← peek t
  if let some k := token then set k.stop
  return token

/-- Reads the next token if it passes a test, and says whether it does. -/
def eat (p : Token → Bool) : Program Bool := do
  match ← peek t with
  | none => return false
  | some k =>
    if p k then
      let _ ← next t
      return true
    else return false

/-- Refuses what stands next. -/
def fail {α : Type} (reason : Reason) : Program α := do
  throw ⟨.grammar, reason, t, ← get⟩

/-! ### Assignments -/

/-- The end of a command. -/
def expectEnd : Program Unit := do
  match ← peek t with
  | none => return ()
  | some k =>
    if k.isEnd then
      let _ ← next t
      return ()
    else fail t AssignFault.trailingWords.reason

/-- The user whom the next token mentions. -/
def mention : Program Text := do
  match ← peek t with
  | none => fail t AssignFault.missingUser.reason
  | some k =>
    if k.isEnd then fail t AssignFault.missingUser.reason
    else if !k.isWord || k.value.head? != some '@' || k.value.length == 1 then
      fail t AssignFault.unmentionedUser.reason
    else
      let _ ← next t
      return k.value.drop 1

/-- A mentioned user, behind a `to` that may be left out. -/
def user : Program Text := do
  let _ ← eat t (·.isTheWord "to".toList)
  mention t

/-- The assignment behind a keyword. -/
def assignment (keyword : Text) : Program Assignment := do
  let a ←
    if keyword = "claim".toList then pure .own
    else if keyword = "release-assignment".toList then pure .release
    else .user <$> user t
  expectEnd t
  return a

/-- The grammar of assignments. -/
def assign : Program (Option Command) := do
  match ← peek t with
  | none => return none
  | some k =>
    if k.isOneOf assignWords then
      let _ ← next t
      let a ← assignment t k.value
      return some (.assign a)
    else return none

/-! ### Changes of labels -/

/-- The change that the next token writes; the first character of a word is looked up. -/
def labelChange : Program LabelChange := do
  match ← peek t with
  | none => fail t RelabelFault.missingChange.reason
  | some k =>
    match k.kind with
    | .quote =>
      let _ ← next t
      return ⟨.add, unescape k.value⟩
    | .word =>
      let first ← k.value[0]?
      let signed := first = '+' ∨ first = '-'
      let action := if first = '-' then LabelAction.remove else .add
      let label := if signed then k.value.drop 1 else k.value
      if label.isEmpty then fail t RelabelFault.emptyLabel.reason
      else
        let _ ← next t
        return ⟨action, label⟩
    | _ => fail t RelabelFault.missingChange.reason

mutual

/-- Changes behind others, and the end of the command. -/
def Source.labelChanges (t : Source) (before : List LabelChange) : Program (List LabelChange) := do
  let _ ← eat t (·.kind == .comma)
  let _ ← eat t (·.isTheWord "and".toList)
  t |>.changesOrEnd before
partial_fixpoint

/-- The same behind a comma and an `and`, if they stand there. -/
def Source.changesOrEnd (t : Source) (before : List LabelChange) : Program (List LabelChange) := do
  match ← peek t with
  | none => return before
  | some k =>
    if k.isEnd then
      let _ ← next t
      return before
    else
      let behind ← labelChange t
      t |>.labelChanges (before ++ [behind])
partial_fixpoint

end

/-- The command that makes some changes; without any there is none. -/
def relabelCommand? : List LabelChange → Option Command
  | [] => none
  | changes => some (.relabel changes)

/-- A list of changes and the end of the command. -/
def labelList : Program (List LabelChange) := do
  let first ← labelChange t
  Source.labelChanges t [first]

/-- The command behind what announces its changes; one that was announced by `to` may remove no
    labels. -/
def changeList (announced : Bool) : Program Command := do
  let start ← get
  let changes ← labelList t
  if announced && changes.any (·.action == .remove) then
    set start
    fail t RelabelFault.misleadingTo.reason
  else relabelCommand? changes

/-- The changes behind the keyword. -/
def relabeling : Program Command := do
  if ← eat t (·.isTheWord "labels".toList) then
    let _ ← eat t Token.isColon
    let announced ← eat t (·.isTheWord "to".toList)
    let _ ← eat t Token.isColon
    changeList t announced
  else fail t RelabelFault.missingLabels.reason

/-- The grammar of changes of labels. -/
def relabel : Program (Option Command) := do
  if ← eat t (·.isTheWord "modify".toList) then
    let command ← relabeling t
    return some command
  else return none

/-! ### Attempts -/

/-- What a grammar says about the command at an offset. -/
def attempt? (kind : Text) (parse : Program (Option Command)) (offset : Nat) : Option Outcome := do
  let (result, stop) ← run parse offset
  return ⟨kind, Parse.verdict offset ⟨result, stop⟩, stop⟩

end

/-! ## Steps -/

section
variable {α β : Type} {t : Text} {p q : Nat} {k : Token} {rest : Tokens}

theorem run_bind (x : Program α) (f : α → Program β) (p : Nat) :
    run (x >>= f) p = (run x p).bind fun (result, q) =>
      match result with
      | .ok a => run (f a) q
      | .error fault => some (.error fault, q) := by
  change (x p).bind _ = (x p).bind _
  congr 1
  funext ⟨result, q⟩
  cases result <;> rfl

theorem run_bind_of_ok {x : Program α} {a : α} (h : run x p = some (.ok a, q))
    (f : α → Program β) : run (x >>= f) p = run (f a) q := by
  rw [run_bind, h]
  rfl

theorem run_bind_of_error {x : Program α} {fault : Diagnostic}
    (h : run x p = some (.error fault, q)) (f : α → Program β) :
    run (x >>= f) p = some (.error fault, q) := by
  rw [run_bind, h]
  rfl

theorem run_get (p : Nat) : run get p = some (.ok p, p) := rfl

theorem run_lift (x : Option α) (p : Nat) :
    run (liftM x : Program α) p = x.map fun a => (.ok a, p) := by
  cases x <;> rfl

theorem run_fail (t : Text) (reason : Reason) (p : Nat) :
    run (fail t reason : Program α) p = some (.error ⟨.grammar, reason, t, p⟩, p) := rfl

/-- The tokens ahead of an offset start with its lexeme. -/
theorem exists_lexeme_of_next {u : Text} (h : Tokens.ofText u = .next k rest) :
    Lexeme.ofText u = .token k ∧ Tokens.ofText (u.drop k.stop) = rest := by
  cases hl : Lexeme.ofText u with
  | finished =>
    rw [Tokens.ofText_of_finished hl] at h
    cases h
  | fault =>
    rw [Tokens.ofText_of_fault hl] at h
    cases h
  | token j =>
    rw [Tokens.ofText_of_token hl] at h
    cases h
    exact ⟨rfl, rfl⟩

theorem ofText_drop_of_next (h : Tokens.ofText (t.drop p) = .next k rest) :
    Tokens.ofText (t.drop (p + k.stop)) = rest := by
  rw [← List.drop_drop]
  exact (exists_lexeme_of_next h).2

theorem run_peek (t : Text) (p : Nat) :
    run (peek t) p = some (match Tokens.ofText (t.drop p) with
      | .finish => .ok none
      | .fault reason offset => .error (.ofLexFault reason t (p + offset))
      | .next k _ => .ok (some (k.shift p)), p) := by
  have hrun : run (peek t) p = (token? t p).bind fun found => some (found, p) := by
    rw [peek, run_bind_of_ok (run_get p), run_bind, run_lift]
    rcases token? t p with _ | fault | token <;> rfl
  rw [hrun, token?_eq_ofLexeme]
  cases hl : Lexeme.ofText (t.drop p) with
  | finished =>
    rw [Tokens.ofText_of_finished hl]
    rfl
  | fault =>
    rw [Tokens.ofText_of_fault hl]
    rfl
  | token k =>
    rw [Tokens.ofText_of_token hl]
    rfl

theorem run_peek_of_finish (h : Tokens.ofText (t.drop p) = .finish) :
    run (peek t) p = some (.ok none, p) := by
  rw [run_peek, h]

theorem run_peek_of_fault {reason : LexFault} {offset : Nat}
    (h : Tokens.ofText (t.drop p) = .fault reason offset) :
    run (peek t) p = some (.error (.ofLexFault reason t (p + offset)), p) := by
  rw [run_peek, h]

theorem run_peek_of_next (h : Tokens.ofText (t.drop p) = .next k rest) :
    run (peek t) p = some (.ok (some (k.shift p)), p) := by
  rw [run_peek, h]

theorem run_next_of_next (h : Tokens.ofText (t.drop p) = .next k rest) :
    run (next t) p = some (.ok (some (k.shift p)), p + k.stop) := by
  rw [next, run_bind_of_ok (run_peek_of_next h), ← Token.stop_shift]
  rfl

theorem run_eat_of_finish (h : Tokens.ofText (t.drop p) = .finish) (test : Token → Bool) :
    run (eat t test) p = some (.ok false, p) := by
  rw [eat, run_bind_of_ok (run_peek_of_finish h)]
  rfl

theorem run_eat_of_fault {reason : LexFault} {offset : Nat}
    (h : Tokens.ofText (t.drop p) = .fault reason offset) (test : Token → Bool) :
    run (eat t test) p = some (.error (.ofLexFault reason t (p + offset)), p) :=
  run_bind_of_error (run_peek_of_fault h) _

theorem run_eat_of_next (h : Tokens.ofText (t.drop p) = .next k rest) (test : Token → Bool) :
    run (eat t test) p =
      some (.ok (test (k.shift p)), if test (k.shift p) then p + k.stop else p) := by
  rw [eat, run_bind_of_ok (run_peek_of_next h)]
  simp only
  cases test (k.shift p) with
  | false => rfl
  | true =>
    rw [if_pos rfl, run_bind_of_ok (run_next_of_next h)]
    rfl

/-! ## Readings -/

/-- A program started at an offset does what a reading says; none of the programs passes. -/
def Yields (t : Text) (p : Nat) (x : Program α) : Reading α → Prop
  | .pass => False
  | .accept a used => run x p = some (.ok a, p + used)
  | .refuse refusal used =>
    run x p = some (.error (refusal.diagnostic ⟨t, p, p + used⟩), p + used)

theorem Yields.behind {x y : Program α} {n : Nat} {r : Reading α} (h : Yields t (p + n) x r)
    (hy : run y p = run x (p + n)) : Yields t p y (r.behind n) := by
  cases r with
  | pass => exact h
  | accept a used =>
    simp only [Reading.behind, Yields, hy, ← Nat.add_assoc]
    exact h
  | refuse refusal used =>
    simp only [Reading.behind, Yields, hy, ← Nat.add_assoc]
    cases refusal <;> exact h

theorem Yields.congr {x y : Program α} {r : Reading α} (h : Yields t p x r)
    (hy : run y p = run x p) : Yields t p y r := by
  cases r with
  | pass => exact h
  | accept => exact hy.trans h
  | refuse => exact hy.trans h

theorem Yields.map {x : Program α} {r : Reading α} (h : Yields t p x r) (f : α → β) :
    Yields t p (x >>= fun a => pure (f a)) (r.map f) := by
  cases r with
  | pass => exact h
  | accept => exact run_bind_of_ok h _
  | refuse => exact run_bind_of_error h _

theorem yields_fault {x : Program α} {reason : LexFault} {offset : Nat}
    (h : run x p = some (.error (.ofLexFault reason t (p + offset)), p)) :
    Yields t p x (.faulty reason offset) := h

theorem yields_fail {x : Program α} {reason : Reason}
    (h : run x p = some (.error ⟨.grammar, reason, t, p⟩, p)) : Yields t p x (.fail reason) := h

/-- What stands next may be looked at. -/
theorem Yields.peek {f : Option Token → Program α} (read : Tokens → Reading α)
    (hfault : ∀ reason offset, read (.fault reason offset) = .faulty reason offset)
    (hfinish : Yields t p (f none) (read .finish))
    (hnext : ∀ k rest, Tokens.ofText (t.drop p) = .next k rest →
      Yields t p (f (some (k.shift p))) (read (.next k rest))) :
    Yields t p (peek t >>= f) (read (Tokens.ofText (t.drop p))) := by
  cases hp : Tokens.ofText (t.drop p) with
  | finish => exact hfinish.congr (run_bind_of_ok (run_peek_of_finish hp) f)
  | fault reason offset =>
    rw [hfault]
    exact yields_fault (run_bind_of_error (run_peek_of_fault hp) f)
  | next k rest => exact (hnext k rest hp).congr (run_bind_of_ok (run_peek_of_next hp) f)

/-- What stands next may be eaten, and a test of it may be remembered. -/
theorem Yields.eat {test : Token → Bool} {f : Bool → Program α} (read : Bool → Tokens → Reading α)
    (htest : ∀ k n, test (Token.shift n k) = test k)
    (hfault : ∀ b reason offset, read b (.fault reason offset) = .faulty reason offset)
    (h : ∀ b q, p ≤ q → Yields t q (f b) (read b (Tokens.ofText (t.drop q)))) :
    Yields t p (eat t test >>= f) (readOptional test
      (read ((Tokens.ofText (t.drop p)).first?.any test)) (Tokens.ofText (t.drop p))) := by
  cases hp : Tokens.ofText (t.drop p) with
  | finish =>
    have hrest := h false p (Nat.le_refl p)
    rw [hp] at hrest
    exact hrest.congr (run_bind_of_ok (run_eat_of_finish hp test) f)
  | fault reason offset =>
    rw [readOptional, hfault]
    · exact yields_fault (run_bind_of_error (run_eat_of_fault hp test) f)
    · rintro _ _ ⟨⟩
  | next k rest =>
    have heat := run_bind_of_ok (run_eat_of_next hp test) f
    rw [htest] at heat
    simp only [readOptional, Tokens.first?, Option.any_some]
    by_cases hk : test k = true
    · have hrest := h true (p + k.stop) (Nat.le_add_right ..)
      rw [ofText_drop_of_next hp] at hrest
      rw [hk, if_pos rfl] at heat
      rw [hk, if_pos rfl]
      exact hrest.behind heat
    · have hrest := h false p (Nat.le_refl p)
      rw [Bool.not_eq_true] at hk
      rw [hp] at hrest
      rw [hk, if_neg Bool.false_ne_true] at heat
      rw [hk, if_neg Bool.false_ne_true]
      exact hrest.congr heat

/-! ### Assignments -/

theorem yields_expectEnd (p : Nat) (a : Assignment) :
    Yields t p (expectEnd t >>= fun _ => pure a) (readEnd a (Tokens.ofText (t.drop p))) := by
  rw [expectEnd, bind_assoc]
  refine Yields.peek (readEnd a) (fun _ _ => rfl) rfl fun k rest hp => ?_
  simp only [readEnd]
  by_cases he : k.isEnd = true
  · have he' : (k.shift p).isEnd = true := he
    rw [if_pos he, if_pos he', bind_assoc]
    exact run_bind_of_ok (run_next_of_next hp) _
  · have he' : ¬ (k.shift p).isEnd = true := he
    rw [if_neg he, if_neg he']
    exact yields_fail (run_bind_of_error (run_fail ..) _)

theorem mentionedUser?_eq (k : Token) :
    mentionedUser? k = if !k.isWord || k.value.head? != some '@' || k.value.length == 1 then none
      else some (k.value.drop 1) := by
  rw [mentionedUser?]
  cases k.isWord with
  | false => rfl
  | true =>
    rcases k.value with _ | ⟨c, _ | ⟨d, name⟩⟩
    · rfl
    · by_cases hc : c = '@' <;> simp
    · by_cases hc : c = '@' <;> simp [hc]

theorem yields_mention (p : Nat) :
    Yields t p (do
      let name ← mention t
      expectEnd t
      return .user name) (readUser (Tokens.ofText (t.drop p))) := by
  rw [mention, bind_assoc]
  refine Yields.peek readUser (fun _ _ => rfl)
    (yields_fail (run_bind_of_error (run_fail ..) _)) fun k rest hp => ?_
  simp only [readUser, mentionedUser?_eq]
  by_cases he : k.isEnd = true
  · have he' : (k.shift p).isEnd = true := he
    rw [if_pos he, if_pos he']
    exact yields_fail (run_bind_of_error (run_fail ..) _)
  · have he' : ¬ (k.shift p).isEnd = true := he
    rw [if_neg he, if_neg he']
    by_cases hm : (!k.isWord || k.value.head? != some '@' || k.value.length == 1) = true
    · have hm' : (!(k.shift p).isWord || (k.shift p).value.head? != some '@' ||
          (k.shift p).value.length == 1) = true := hm
      rw [if_pos hm, if_pos hm']
      exact yields_fail (run_bind_of_error (run_fail ..) _)
    · have hm' : ¬ (!(k.shift p).isWord || (k.shift p).value.head? != some '@' ||
          (k.shift p).value.length == 1) = true := hm
      have hend := yields_expectEnd (t := t) (p + k.stop) (.user (k.value.drop 1))
      rw [ofText_drop_of_next hp] at hend
      rw [if_neg hm, if_neg hm', bind_assoc]
      exact hend.behind (run_bind_of_ok (run_next_of_next hp) _)

theorem yields_user (p : Nat) :
    Yields t p (do
      let name ← user t
      expectEnd t
      return .user name) (readAssignee (Tokens.ofText (t.drop p))) := by
  rw [user, bind_assoc]
  exact Yields.eat (fun _ => readUser) (fun _ _ => rfl) (fun _ _ _ => rfl)
    fun _ q _ => yields_mention q

/-- What a program gives, where `none` stands for the reading that passes. -/
theorem run_of_yields {x : Program Command} {r : Reading Command} (h : Yields t p x r)
    {y : Program (Option Command)} (hy : run y p = run (some <$> x) p) (start : Nat) :
    run y p = some ((r.parse ⟨t, start, p⟩).result, (r.parse ⟨t, start, p⟩).position) := by
  have hmap : (some <$> x : Program (Option Command)) = x >>= fun a => pure (some a) :=
    map_eq_pure_bind some x
  rw [hy, hmap]
  cases r with
  | pass => cases h
  | accept => exact run_bind_of_ok h _
  | refuse refusal =>
    refine (run_bind_of_error h _).trans ?_
    cases refusal <;> rfl

theorem isWord_of_isOneOf {words : List Text} (h : k.isOneOf words = true) :
    k.isWord = true ∧ k.value ∈ words := by
  obtain ⟨w, hw, hk⟩ := List.any_eq_true.1 h
  simp only [Token.isTheWord, Bool.and_eq_true, beq_iff_eq] at hk
  exact ⟨hk.1, hk.2 ▸ hw⟩

theorem yields_assignment (hp : Tokens.ofText (t.drop p) = .next k rest)
    (hk : k.isOneOf assignWords = true) :
    Yields t p (next t >>= fun _ => assignment t k.value) (readAssignment (.next k rest)) := by
  obtain ⟨hword, hvalue⟩ := isWord_of_isOneOf hk
  have hnext := run_bind_of_ok (run_next_of_next hp) fun _ => assignment t k.value
  have hend := yields_expectEnd (t := t) (p + k.stop)
  have huser := yields_user (t := t) (p + k.stop)
  rw [ofText_drop_of_next hp] at hend huser
  simp only [readAssignment, Token.isTheWord, hword, Bool.true_and, beq_iff_eq]
  by_cases hclaim : k.value = "claim".toList
  · rw [if_pos hclaim]
    refine (hend .own).behind (hnext.trans ?_)
    rw [assignment, if_pos hclaim]
    rfl
  · rw [if_neg hclaim]
    by_cases hrelease : k.value = "release-assignment".toList
    · rw [if_pos hrelease]
      refine (hend .release).behind (hnext.trans ?_)
      rw [assignment, if_neg hclaim, if_pos hrelease]
      rfl
    · have hassign : k.value = "assign".toList := by
        simp only [assignWords, List.mem_cons, List.not_mem_nil, or_false] at hvalue
        exact (hvalue.resolve_left hclaim).resolve_left hrelease
      rw [if_neg hrelease, if_pos hassign]
      refine huser.behind (hnext.trans ?_)
      rw [assignment, if_neg hclaim, if_neg hrelease, bind_map_left]

theorem run_assign (s : TokenStream) :
    run (assign s.text) s.position =
      some ((assignGrammar.parse s).result, (assignGrammar.parse s).position) := by
  obtain ⟨t, start, p⟩ := s
  have hparse : assignGrammar.parse ⟨t, start, p⟩ =
      ((readAssignment (Tokens.ofText (t.drop p))).map .assign).parse ⟨t, start, p⟩ := rfl
  rw [hparse]
  cases hp : Tokens.ofText (t.drop p) with
  | finish => exact run_bind_of_ok (run_peek_of_finish hp) _
  | fault reason offset => exact run_bind_of_error (run_peek_of_fault hp) _
  | next k rest =>
    have hpeek (f : Option Token → Program (Option Command)) :=
      run_bind_of_ok (run_peek_of_next hp) f
    by_cases hk : k.isOneOf assignWords = true
    · have hk' : (k.shift p).isOneOf assignWords = true := hk
      refine run_of_yields ((yields_assignment hp hk).map .assign) ((hpeek _).trans ?_) start
      simp only [if_pos hk', map_eq_pure_bind, bind_assoc, pure_bind]
      rfl
    · have hk' : ¬ (k.shift p).isOneOf assignWords = true := hk
      rw [Bool.not_eq_true] at hk
      rw [opensWith_readAssignment.pass k rest hk]
      refine (hpeek _).trans ?_
      simp only [if_neg hk']
      rfl

/-! ### Changes of labels -/

/-- The first character of a word can be looked up, since no word is empty. -/
theorem run_labelChange_of_next (hp : Tokens.ofText (t.drop p) = .next k rest) :
    run (labelChange t) p = some (match k.change? with
      | .error fault => (.error ⟨.grammar, fault.reason, t, p⟩, p)
      | .ok change => (.ok change, p + k.stop)) := by
  rw [labelChange]
  refine (run_bind_of_ok (run_peek_of_next hp) _).trans ?_
  have hnext (f : Option Token → Program LabelChange) := run_bind_of_ok (run_next_of_next hp) f
  obtain ⟨-, -, -, -, -, hne⟩ := Lexeme.eq_append_of_ofText (exists_lexeme_of_next hp).1
  obtain ⟨kind, start, source⟩ := k
  cases kind with
  | quote => exact hnext _
  | word =>
    obtain ⟨c, label, rfl⟩ := List.exists_cons_of_ne_nil hne
    have hfirst : run (liftM (c :: label)[0]? : Program Char) p = some (.ok c, p) := rfl
    refine (run_bind_of_ok hfirst _).trans ?_
    by_cases hplus : c = '+'
    · subst hplus
      cases label with
      | nil => exact run_fail ..
      | cons d label => exact hnext _
    · by_cases hminus : c = '-'
      · subst hminus
        cases label with
        | nil => exact run_fail ..
        | cons d label => exact hnext _
      · have hsigned : ¬ (c = '+' ∨ c = '-') := not_or.2 ⟨hplus, hminus⟩
        have hchange : Token.change? ⟨.word, start, c :: label⟩ = .ok ⟨.add, c :: label⟩ := by
          simp [Token.change?, Token.value, signedLabel, hplus, hminus]
        rw [hchange]
        simp only [if_neg hsigned, if_neg hminus]
        exact hnext _
  | dot | comma | semicolon | exclamation | question | colon | endOfLine => exact run_fail ..

theorem map_readOptional (f : α → β) (test : Token → Bool) (read : Tokens → Reading α)
    (tokens : Tokens) : (readOptional test read tokens).map f =
      readOptional test (fun tokens => (read tokens).map f) tokens := by
  cases tokens with
  | finish | fault => rfl
  | next k rest =>
    simp only [readOptional]
    by_cases hk : test k = true
    · rw [if_pos hk, if_pos hk]
      cases read rest <;> rfl
    · rw [if_neg hk, if_neg hk]

theorem yields_labelChanges {before : List LabelChange}
    (h : ∀ q, p ≤ q → Yields t q (Source.changesOrEnd t before)
      ((readChanges .conjunction (Tokens.ofText (t.drop q))).map (before ++ ·))) :
    Yields t p (Source.labelChanges t before)
      ((readChanges .change (Tokens.ofText (t.drop p))).map (before ++ ·)) := by
  rw [Source.labelChanges, readChanges_change, map_readOptional]
  refine Yields.eat (fun _ tokens => (readChanges .comma tokens).map (before ++ ·))
    (fun _ _ => rfl) (fun _ _ _ => rfl) fun _ q hq => ?_
  simp only [readChanges_comma, map_readOptional]
  exact Yields.eat (fun _ tokens => (readChanges .conjunction tokens).map (before ++ ·))
    (fun _ _ => rfl) (fun _ _ _ => rfl) fun _ q' hq' => h q' (hq.trans hq')

theorem yields_changesOrEnd (p : Nat) (before : List LabelChange) :
    Yields t p (Source.changesOrEnd t before)
      ((readChanges .conjunction (Tokens.ofText (t.drop p))).map (before ++ ·)) := by
  induction hn : t.length - p using Nat.strong_induction_on generalizing p before with
  | _ n ih =>
    have hbefore (n : Nat) : run (pure before : Program _) (p + n) =
        some (.ok (before ++ []), p + n) := by
      rw [List.append_nil]
      rfl
    rw [Source.changesOrEnd]
    refine Yields.peek (fun tokens => (readChanges .conjunction tokens).map (before ++ ·))
      (fun _ _ => rfl) (hbefore 0) fun k rest hp => ?_
    simp only [readChanges_conjunction]
    by_cases he : k.isEnd = true
    · have he' : (k.shift p).isEnd = true := he
      rw [if_pos he, if_pos he']
      exact (run_bind_of_ok (run_next_of_next hp) _).trans (hbefore k.stop)
    · have he' : ¬ (k.shift p).isEnd = true := he
      have hchange := run_labelChange_of_next hp
      rw [if_neg he, if_neg he']
      cases hc : k.change? with
      | error fault =>
        rw [hc] at hchange
        exact yields_fail (run_bind_of_error hchange _)
      | ok change =>
        have hpos := Lexeme.stop_pos (exists_lexeme_of_next hp).1
        have hle := Lexeme.stop_le_length (exists_lexeme_of_next hp).1
        rw [List.length_drop] at hle
        have hrest := yields_labelChanges (t := t) (p := p + k.stop)
          fun q hq => ih (t.length - q) (by omega) q (before ++ [change]) rfl
        rw [ofText_drop_of_next hp] at hrest
        rw [hc] at hchange
        have hread : (((readChanges .change rest).map (change :: ·)).behind k.stop).map
            (before ++ ·) =
              ((readChanges .change rest).map (before ++ [change] ++ ·)).behind k.stop := by
          cases readChanges .change rest <;> simp [Reading.map, Reading.behind]
        simp only [hread]
        exact hrest.behind (run_bind_of_ok hchange _)

theorem yields_labelList (p : Nat) :
    Yields t p (labelList t) (readChanges .opening (Tokens.ofText (t.drop p))) := by
  rw [labelList]
  cases hp : Tokens.ofText (t.drop p) with
  | finish =>
    refine yields_fail (run_bind_of_error ?_ _)
    exact (run_bind_of_ok (run_peek_of_finish hp) _).trans (run_fail ..)
  | fault reason offset =>
    exact yields_fault (run_bind_of_error (run_bind_of_error (run_peek_of_fault hp) _) _)
  | next k rest =>
    have hchange := run_labelChange_of_next hp
    rw [readChanges_opening]
    cases hc : k.change? with
    | error fault =>
      rw [hc] at hchange
      exact yields_fail (run_bind_of_error hchange _)
    | ok first =>
      have hrest := yields_labelChanges (t := t) (p := p + k.stop)
        fun q _ => yields_changesOrEnd q [first]
      rw [ofText_drop_of_next hp] at hrest
      rw [hc] at hchange
      exact hrest.behind (run_bind_of_ok hchange _)

/-- A command of changes has changes. -/
theorem yields_changeList (announced : Bool) (p : Nat) :
    Yields t p (changeList t announced)
      ((refuseRemovals announced (readChanges .opening (Tokens.ofText (t.drop p)))).map
        .relabel) := by
  have hlist := yields_labelList (t := t) p
  rw [changeList]
  refine Yields.congr ?_ (run_bind_of_ok (run_get p) _)
  cases hr : readChanges .opening (Tokens.ofText (t.drop p)) with
  | pass =>
    rw [hr] at hlist
    cases hlist
  | refuse refusal used =>
    rw [hr] at hlist
    exact run_bind_of_error hlist _
  | accept changes used =>
    obtain ⟨first, others, rfl⟩ := List.exists_cons_of_ne_nil (ne_nil_of_readChanges_opening hr)
    rw [hr] at hlist
    by_cases hto : (announced && (first :: others).any (·.action == .remove)) = true
    · rw [refuseRemovals, if_pos hto]
      refine yields_fail ((run_bind_of_ok hlist _).trans ?_)
      rw [if_pos hto]
      rfl
    · rw [refuseRemovals, if_neg hto]
      refine (run_bind_of_ok hlist _).trans ?_
      rw [if_neg hto]
      rfl

theorem yields_word {x : Program α} {reason : Reason} {read : Tokens → Reading α} {word : Text}
    (h : ∀ q, Yields t q x (read (Tokens.ofText (t.drop q)))) (p : Nat) :
    Yields t p (do if ← eat t (·.isTheWord word) then x else fail t reason)
      (readWord word (.fail reason) read (Tokens.ofText (t.drop p))) := by
  cases hp : Tokens.ofText (t.drop p) with
  | finish =>
    exact yields_fail ((run_bind_of_ok (run_eat_of_finish hp _) _).trans (run_fail ..))
  | fault reason offset => exact yields_fault (run_bind_of_error (run_eat_of_fault hp _) _)
  | next k rest =>
    have hword : (k.shift p).isTheWord word = k.isTheWord word := rfl
    have heat := run_eat_of_next hp (·.isTheWord word)
    simp only [hword] at heat
    simp only [readWord]
    by_cases hk : k.isTheWord word = true
    · have hrest := h (p + k.stop)
      rw [ofText_drop_of_next hp] at hrest
      rw [hk, if_pos rfl] at heat
      rw [if_pos hk]
      exact hrest.behind (run_bind_of_ok heat _)
    · rw [Bool.not_eq_true] at hk
      rw [hk, if_neg Bool.false_ne_true] at heat
      rw [hk, if_neg Bool.false_ne_true]
      exact yields_fail ((run_bind_of_ok heat _).trans (run_fail ..))

/-- A list of changes behind a colon that may be left out. -/
def readChangesBehindColon (announced : Bool) : Tokens → Reading Command :=
  readOptional Token.isColon fun list =>
    (refuseRemovals announced (readChanges .opening list)).map .relabel

theorem yields_changesBehindColon (announced : Bool) (p : Nat) :
    Yields t p (eat t Token.isColon >>= fun _ => changeList t announced)
      (readChangesBehindColon announced (Tokens.ofText (t.drop p))) :=
  Yields.eat (fun _ list => (refuseRemovals announced (readChanges .opening list)).map
    Command.relabel) (fun _ _ => rfl) (fun _ _ _ => rfl) fun _ q _ => yields_changeList announced q

/-- The same behind a word, if it stands there. -/
def readChangesBehindWord (word : Text) (tokens : Tokens) : Reading Command :=
  readOptional (·.isTheWord word)
    (readChangesBehindColon (tokens.first?.any (·.isTheWord word))) tokens

theorem yields_changesBehindWord (word : Text) (p : Nat) :
    Yields t p (do
      let announced ← eat t (·.isTheWord word)
      let _ ← eat t Token.isColon
      changeList t announced) (readChangesBehindWord word (Tokens.ofText (t.drop p))) :=
  Yields.eat readChangesBehindColon (fun _ _ => rfl) (fun _ _ _ => rfl)
    fun announced q _ => yields_changesBehindColon announced q

theorem map_readWord (f : α → β) (word : Text) (otherwise : Reading α) (read : Tokens → Reading α)
    (tokens : Tokens) : (readWord word otherwise read tokens).map f =
      readWord word (otherwise.map f) (fun tokens => (read tokens).map f) tokens := by
  cases tokens with
  | finish | fault => rfl
  | next k rest =>
    simp only [readWord]
    by_cases hk : k.isTheWord word = true
    · rw [if_pos hk, if_pos hk]
      cases read rest <;> rfl
    · rw [if_neg hk, if_neg hk]

/-- What stands behind the keyword. -/
def readBehindModify : Tokens → Reading Command :=
  readWord "labels".toList (.fail RelabelFault.missingLabels.reason)
    (readOptional Token.isColon (readChangesBehindWord "to".toList))

theorem map_readRelabeling (tokens : Tokens) : (readRelabeling tokens).map .relabel =
    readWord "modify".toList .pass readBehindModify tokens := by
  delta readRelabeling readList readBehindModify readChangesBehindWord readChangesBehindColon
  simp only [map_readWord, map_readOptional]
  rfl

theorem yields_relabeling (p : Nat) :
    Yields t p (relabeling t) (readBehindModify (Tokens.ofText (t.drop p))) :=
  yields_word (fun _ => Yields.eat (fun _ => readChangesBehindWord "to".toList)
    (fun _ _ => rfl) (fun _ _ _ => rfl) fun _ q _ => yields_changesBehindWord _ q) p

theorem run_relabel (s : TokenStream) :
    run (relabel s.text) s.position =
      some ((relabelGrammar.parse s).result, (relabelGrammar.parse s).position) := by
  obtain ⟨t, start, p⟩ := s
  have hparse : relabelGrammar.parse ⟨t, start, p⟩ =
      ((readRelabeling (Tokens.ofText (t.drop p))).map .relabel).parse ⟨t, start, p⟩ := rfl
  rw [hparse, map_readRelabeling]
  cases hp : Tokens.ofText (t.drop p) with
  | finish => exact run_bind_of_ok (run_eat_of_finish hp _) _
  | fault reason offset => exact run_bind_of_error (run_eat_of_fault hp _) _
  | next k rest =>
    have hword : (k.shift p).isTheWord "modify".toList = k.isTheWord "modify".toList := rfl
    have heat := run_eat_of_next hp (·.isTheWord "modify".toList)
    simp only [hword] at heat
    by_cases hk : k.isTheWord "modify".toList = true
    · have hrest := yields_relabeling (t := t) (p + k.stop)
      rw [ofText_drop_of_next hp] at hrest
      rw [hk, if_pos rfl] at heat
      rw [readWord, if_pos hk]
      refine run_of_yields (hrest.behind (run_bind_of_ok heat fun _ => relabeling t)) ?_ start
      rw [map_eq_pure_bind, bind_assoc, run_bind_of_ok heat]
      exact run_bind_of_ok heat _
    · rw [Bool.not_eq_true] at hk
      rw [hk, if_neg Bool.false_ne_true] at heat
      rw [readWord, hk, if_neg Bool.false_ne_true]
      exact run_bind_of_ok heat _

/-! ### Commands that make no changes -/

/-- Whatever a program gives has a property. -/
def Gives (P : α → Prop) (x : Program α) : Prop := ∀ p a q, run x p = some (.ok a, q) → P a

theorem Gives.bind {P : α → Prop} {Q : β → Prop} {x : Program α} {f : α → Program β}
    (hx : Gives P x) (hf : ∀ a, P a → Gives Q (f a)) : Gives Q (x >>= f) := by
  intro p b q hb
  rw [run_bind, Option.bind_eq_some_iff] at hb
  obtain ⟨⟨result, p'⟩, hx', hb⟩ := hb
  cases result with
  | error fault => cases hb
  | ok a => exact hf a (hx p a p' hx') p' b q hb

/-- **An attempt at an assignment has a result** at every offset. -/
theorem attempt?_assign (s : TokenStream) :
    attempt? assignGrammar.kind (assign s.text) s.position = some (assignGrammar.attempt s) := by
  rw [attempt?, run_assign]
  rfl

/-- **An attempt at a change of labels has a result** at every offset. -/
theorem attempt?_relabel (s : TokenStream) :
    attempt? relabelGrammar.kind (relabel s.text) s.position = some (relabelGrammar.attempt s) := by
  rw [attempt?, run_relabel]
  rfl

end

end MentionCommands.Indexed
