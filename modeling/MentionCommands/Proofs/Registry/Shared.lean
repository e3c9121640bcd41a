/-
  Registries that share their blueprints.

  A stamp is on the blueprint itself.  So each registry keeps its own list, and a call on one shows
  in the others by the stamp that it puts on a blueprint, if they list that too.

  * `Shared`: registries with the stamps on all blueprints; `Shared.Lawful`: no registry lists a
    kind twice, and each listed blueprint has a stamp of its own; `Lawful.grammars_some` and
    `Lawful.grammars_restamped` say what such registries give out, and
    `Lawful.grammars_unchanged_iff` when newer stamps do not show;
  * `Shared.run_cases`: a call on one of the registries lists a blueprint there and puts a stamp on
    it, or changes nothing;
  * `stampsPut`: the stamps that calls put on blueprints; `Shared.stamps_after`: calls that succeed
    put theirs in front of the older ones, and the others put none;
  * `registries_share_stamps`: what becomes of a registered grammar after any calls on any of the
    registries, and which calls on the others show; `registries_not_isolated`: some do.
-/
import MentionCommands.Proofs.Registry.Calls

namespace MentionCommands

/-! ## Stamps -/

/-- A grammar as it is given out when newer stamps have been put on blueprints. -/
def Listing.restamped (put : Stamps) (l : Listing) : Listing :=
  ⟨l.blueprint, (put.lookup l.blueprint.id).getD l.stamp⟩

/-- Newer stamps do not decide whether a grammar can be made. -/
theorem Listing.made_restamped (put : Stamps) (l : Listing) :
    (l.restamped put).made = l.made.map (·.restamped put) := by
  have hblueprint : (l.restamped put).blueprint = l.blueprint := rfl
  rw [made, made, hblueprint]
  by_cases hopen : l.blueprint.openMethods = []
  · rw [if_pos hopen, if_pos hopen]
    rfl
  · rw [if_neg hopen, if_neg hopen]
    rfl

/-- The stamp of a blueprint, or a newer one in front of it. -/
theorem Stamps.lookup_append_of_lookup (put : Stamps) {stamps : Stamps} {id : Nat} {stamp : Stamp}
    (h : stamps.lookup id = some stamp) :
    List.lookup id (put ++ stamps) = some ((put.lookup id).getD stamp) := by
  rw [List.lookup_append, h]
  cases put.lookup id <;> rfl

namespace Registry

theorem mapM_except_map {α β γ ε : Type} (f : α → Except ε β) (g : β → γ) (xs : List α) :
    xs.mapM (fun x => (f x).map g) = (xs.mapM f).map (List.map g) := by
  induction xs with
  | nil => rfl
  | cons x xs ih =>
    rw [List.mapM_cons, List.mapM_cons, ih]
    cases f x with
    | error e => rfl
    | ok y => cases xs.mapM f <;> rfl

/-! ## Several registries -/

/-- Registries, and the stamps on the blueprints that they share. -/
structure Shared (ι : Type) where
  registries : ι → Registry
  stamps : Stamps

/-- The stamps that calls put on blueprints, the newest one first. -/
def stampsPut {ι : Type} (calls : List (ι × Call)) : Stamps :=
  calls.reverse.filterMap fun (_, call) =>
    match call.candidate with
    | .blueprint b => some (b.id, call.stamp)
    | .other _ => none

namespace Shared

variable {ι : Type} {σ : Shared ι} {i a : ι}

/-- Registries of nothing. -/
def empty : Shared ι := ⟨fun _ => .empty, []⟩

/-- The grammars that one of the registries gives out. -/
def grammars (σ : Shared ι) (i : ι) (kind : Option Text) : Except RegistryError (List Listing) :=
  (σ.registries i).grammars σ.stamps kind

/-- No registry lists a kind twice, and each listed blueprint has a stamp of its own. -/
structure Lawful (σ : Shared ι) : Prop where
  kinds_nodup : ∀ i, (σ.registries i).kinds.Nodup
  stamped : ∀ i, ∀ entry ∈ (σ.registries i).entries,
    ∃ stamp, σ.stamps.lookup entry.2.id = some stamp

namespace Lawful

theorem empty : (empty : Shared ι).Lawful := ⟨fun _ => List.nodup_nil, fun _ => nofun⟩

/-- What is made of the blueprint under a kind is given out alone for it, with the stamp that it
    has now. -/
theorem grammars_some (h : σ.Lawful) {kind : Text} {b : Blueprint} {stamp : Stamp}
    (hmem : (kind, b) ∈ (σ.registries a).entries) (hstamp : σ.stamps.lookup b.id = some stamp) :
    σ.grammars a (some kind) = (Listing.made ⟨b, stamp⟩).map ([·]) := by
  have hfilter : (σ.registries a).entries.filter (fun entry => entry.1 == kind) = [(kind, b)] :=
    filter_of_nodup_map (h.kinds_nodup a) hmem
  simp only [grammars, Registry.grammars, Option.all_some, hfilter, List.mapM_cons, List.mapM_nil,
    Blueprint.make_of_lookup hstamp]
  cases Listing.made ⟨b, stamp⟩ <;> rfl

section
variable {σ' : Shared ι} {put : Stamps} (hstamps : σ'.stamps = put ++ σ.stamps)
include hstamps

/-- What is made of a listed blueprint shows its stamp, and then a newer one. -/
theorem exists_make (h : σ.Lawful) {entry : Text × Blueprint}
    (hentry : entry ∈ (σ.registries a).entries) :
    ∃ stamp, σ.stamps.lookup entry.2.id = some stamp ∧
      entry.2.make σ.stamps = Listing.made ⟨entry.2, stamp⟩ ∧
      entry.2.make σ'.stamps = (Listing.made ⟨entry.2, stamp⟩).map (·.restamped put) := by
  obtain ⟨stamp, hstamp⟩ := h.stamped a entry hentry
  have hnew : σ'.stamps.lookup entry.2.id = some ((put.lookup entry.2.id).getD stamp) := by
    rw [hstamps, Stamps.lookup_append_of_lookup put hstamp]
  refine ⟨stamp, hstamp, Blueprint.make_of_lookup hstamp, ?_⟩
  rw [Blueprint.make_of_lookup hnew]
  exact Listing.made_restamped put ⟨entry.2, stamp⟩

variable (hlist : σ'.registries a = σ.registries a)
include hlist

/-- **Newer stamps show on the listed blueprints**, and change nothing else. -/
theorem grammars_restamped (h : σ.Lawful) (kind : Option Text) :
    σ'.grammars a kind = (σ.grammars a kind).map (List.map (·.restamped put)) := by
  rw [grammars, grammars, Registry.grammars, Registry.grammars, hlist, ← mapM_except_map]
  refine mapM_congr fun entry hentry => ?_
  obtain ⟨stamp, -, hold, hnew⟩ := h.exists_make hstamps (List.mem_of_mem_filter hentry)
  rw [hold, hnew]

/-- **Newer stamps do not show if the grammars that can be made have them already**, and only
    then. -/
theorem grammars_unchanged_iff (h : σ.Lawful) :
    (∀ kind, σ'.grammars a kind = σ.grammars a kind) ↔
      ∀ entry ∈ (σ.registries a).entries, entry.2.openMethods = [] →
        ∀ stamp, put.lookup entry.2.id = some stamp → σ.stamps.lookup entry.2.id = some stamp := by
  constructor
  · rintro hsame ⟨kind, b⟩ hentry hopen stamp hput
    obtain ⟨old, hold⟩ := h.stamped a _ hentry
    have hshown := hsame (some kind)
    rw [grammars_restamped hstamps hlist h, h.grammars_some hentry hold, Listing.made, if_pos hopen]
      at hshown
    have hstamp : (put.lookup b.id).getD old = old := by
      simpa [Except.map, Listing.restamped] using hshown
    rw [hold, ← hstamp, hput]
    rfl
  · intro hput kind
    rw [grammars, grammars, Registry.grammars, Registry.grammars, hlist]
    refine mapM_congr fun entry hentry => ?_
    have hentry := List.mem_of_mem_filter hentry
    obtain ⟨old, hlookup, hold, hnew⟩ := h.exists_make hstamps hentry
    rw [hold, hnew, Listing.made]
    by_cases hopen : entry.2.openMethods = []
    · -- the newer stamp is the old one, if there is a newer one
      have hstamp : (put.lookup entry.2.id).getD old = old := by
        cases hnewer : put.lookup entry.2.id with
        | none => rfl
        | some stamp =>
          exact Option.some.inj ((hput entry hentry hopen stamp hnewer).symm.trans hlookup)
      rw [if_pos hopen, Except.map, Listing.restamped, hstamp]
    · rw [if_neg hopen]
      rfl

end

end Lawful

/-! ## What a call does -/

section
variable [DecidableEq ι] {call : Call} {calls : List (ι × Call)}

/-- The answer to a call on one of the registries, and what it leaves. -/
def run (σ : Shared ι) (i : ι) (call : Call) : Except RegistryError Unit × Shared ι :=
  let (answer, left) := call.run ⟨σ.registries i, σ.stamps⟩
  (answer, ⟨Function.update σ.registries i left.registry, left.stamps⟩)

/-- A call on a registry lists a blueprint there under a new kind, and puts the stamp on it. -/
structure Lists (σ : Shared ι) (i : ι) (call : Call) (b : Blueprint) (σ' : Shared ι) : Prop where
  candidate : call.candidate = .blueprint b
  newKind : call.stamp.kind ∉ (σ.registries i).kinds
  registry : σ'.registries i = ⟨(σ.registries i).entries ++ [(call.stamp.kind, b)]⟩
  others : ∀ j, j ≠ i → σ'.registries j = σ.registries j
  stamps : σ'.stamps = (b.id, call.stamp) :: σ.stamps

/-- **A call lists a blueprint, or changes nothing.** -/
theorem run_cases (σ : Shared ι) (i : ι) (call : Call) :
    (∃ b σ', σ.run i call = (.ok (), σ') ∧ Lists σ i call b σ') ∨
      ∃ e, σ.run i call = (.error e, σ) := by
  obtain ⟨candidate, stamp⟩ := call
  have hsame : (⟨Function.update σ.registries i (σ.registries i), σ.stamps⟩ : Shared ι) = σ := by
    rw [Function.update_eq_self]
  rw [run, Call.run_eq]
  cases candidate with
  | other shown => exact Or.inr ⟨_, congrArg (Prod.mk _) hsame⟩
  | blueprint b =>
    simp only [register]
    split_ifs with hid hkind
    · exact Or.inr ⟨_, congrArg (Prod.mk _) hsame⟩
    · exact Or.inr ⟨_, congrArg (Prod.mk _) hsame⟩
    · exact Or.inl ⟨b, _, rfl, rfl, by simpa using hkind, Function.update_self _ _ _,
        fun j hj => Function.update_of_ne hj _ _, rfl⟩

theorem Lists.mem_entries_iff {b : Blueprint} {σ' : Shared ι} (h : Lists σ i call b σ')
    {entry : Text × Blueprint} : entry ∈ (σ'.registries a).entries ↔
      entry ∈ (σ.registries a).entries ∨ a = i ∧ entry = (call.stamp.kind, b) := by
  by_cases ha : a = i
  · subst ha
    simp [h.registry]
  · simp [h.others a ha, ha]

/-- What is registered is listed, and has the stamp of its registration. -/
theorem listed_of_ok {l : Listing} (h : (σ.run a l.call).1 = .ok ()) :
    (l.stamp.kind, l.blueprint) ∈ ((σ.run a l.call).2.registries a).entries ∧
      (σ.run a l.call).2.stamps.lookup l.blueprint.id = some l.stamp := by
  obtain ⟨b, σ', hrun, hlists⟩ | ⟨e, hrun⟩ := σ.run_cases a l.call
  · cases hlists.candidate
    rw [hrun]
    refine ⟨hlists.mem_entries_iff.2 (Or.inr ⟨rfl, rfl⟩), ?_⟩
    rw [hlists.stamps]
    exact List.lookup_cons_self
  · rw [hrun] at h
    cases h

/-- A call changes no list but the one of its registry. -/
theorem registries_run_of_ne (h : i ≠ a) : (σ.run i call).2.registries a = σ.registries a := by
  obtain ⟨b, σ', hrun, hlists⟩ | ⟨e, hrun⟩ := σ.run_cases i call
  · rw [hrun]
    exact hlists.others a h.symm
  · rw [hrun]

/-- What a registry lists stays listed. -/
theorem mem_entries_run {entry : Text × Blueprint} (h : entry ∈ (σ.registries a).entries) :
    entry ∈ ((σ.run i call).2.registries a).entries := by
  obtain ⟨b, σ', hrun, hlists⟩ | ⟨e, hrun⟩ := σ.run_cases i call
  · rw [hrun]
    exact hlists.mem_entries_iff.2 (Or.inl h)
  · rwa [hrun]

/-- A call lists nothing under a known kind, and nothing without a stamp. -/
theorem Lawful.run (h : σ.Lawful) (i : ι) (call : Call) : (σ.run i call).2.Lawful := by
  obtain ⟨b, σ', hrun, hlists⟩ | ⟨e, hrun⟩ := σ.run_cases i call
  · rw [hrun]
    constructor
    · intro j
      by_cases hj : j = i
      · subst hj
        have hnew := (List.nodup_concat _ _).2 ⟨hlists.newKind, h.kinds_nodup j⟩
        simpa [kinds, hlists.registry] using hnew
      · rw [hlists.others j hj]
        exact h.kinds_nodup j
    · intro j entry hentry
      rw [hlists.stamps, List.lookup_cons]
      by_cases hid : entry.2.id = b.id
      · exact ⟨call.stamp, by simp [hid]⟩
      · rcases hlists.mem_entries_iff.1 hentry with hold | ⟨-, rfl⟩
        · rw [beq_eq_false_iff_ne.2 hid]
          exact h.stamped j entry hold
        · exact absurd rfl hid
  · rwa [hrun]

/-! ## What calls do -/

/-- What calls leave, one after another. -/
def after (σ : Shared ι) : List (ι × Call) → Shared ι
  | [] => σ
  | (i, call) :: calls => (σ.run i call).2.after calls

/-- Those of the calls that succeed. -/
def succeeded (σ : Shared ι) : List (ι × Call) → List (ι × Call)
  | [] => []
  | (i, call) :: calls =>
    match σ.run i call with
    | (.ok _, σ') => (i, call) :: σ'.succeeded calls
    | (.error _, σ') => σ'.succeeded calls

/-- **Calls on other registries leave the list of a registry as it was.** -/
theorem registries_after_of_ne (h : ∀ c ∈ calls, c.1 ≠ a) :
    (σ.after calls).registries a = σ.registries a := by
  induction calls generalizing σ with
  | nil => rfl
  | cons c calls ih =>
    obtain ⟨hc, hcalls⟩ := List.forall_mem_cons.1 h
    exact (ih hcalls).trans (registries_run_of_ne hc)

theorem mem_entries_after {entry : Text × Blueprint} (h : entry ∈ (σ.registries a).entries)
    (calls : List (ι × Call)) : entry ∈ ((σ.after calls).registries a).entries := by
  induction calls generalizing σ with
  | nil => exact h
  | cons c calls ih => exact ih (mem_entries_run h)

theorem Lawful.after (h : σ.Lawful) (calls : List (ι × Call)) : (σ.after calls).Lawful := by
  induction calls generalizing σ with
  | nil => exact h
  | cons c calls ih => exact ih (h.run c.1 c.2)

/-- **Calls that succeed put their stamps in front of the older ones**, and the others put none. -/
theorem stamps_after (σ : Shared ι) (calls : List (ι × Call)) :
    (σ.after calls).stamps = stampsPut (σ.succeeded calls) ++ σ.stamps := by
  induction calls generalizing σ with
  | nil => rfl
  | cons c calls ih =>
    obtain ⟨i, call⟩ := c
    rw [after, succeeded, ih]
    obtain ⟨b, σ', hrun, hlists⟩ | ⟨e, hrun⟩ := σ.run_cases i call
    · simp [hrun, stampsPut, hlists.candidate, hlists.stamps]
    · rw [hrun]

end

end Shared

/-- **What registries give out after any calls on any of them**, successful or not.  A registered
    grammar is given out alone for its kind if its blueprint leaves no method open: as it was
    registered, unless later calls that succeed have put another stamp on its blueprint.  Calls on
    other registries leave the list as it was, and show just by the stamps that they put on listed
    blueprints. -/
theorem registries_share_stamps {ι : Type} [DecidableEq ι] (history later : List (ι × Call)) (a : ι)
    (l : Listing) (hok : (Shared.run (Shared.empty.after history) a l.call).1 = .ok ()) :
    let σ := (Shared.run (Shared.empty.after history) a l.call).2
    let σ' := σ.after later
    let put := stampsPut (σ.succeeded later)
    (l.blueprint.openMethods = [] →
      σ.grammars a (some l.stamp.kind) = .ok [l] ∧
      σ'.grammars a (some l.stamp.kind) = .ok [l.restamped put]) ∧
    ((∀ c ∈ later, c.1 ≠ a) →
      σ'.registries a = σ.registries a ∧
      (∀ kind, σ'.grammars a kind = (σ.grammars a kind).map (List.map (·.restamped put))) ∧
      ((∀ kind, σ'.grammars a kind = σ.grammars a kind) ↔
        ∀ entry ∈ (σ.registries a).entries, entry.2.openMethods = [] →
          ∀ stamp, put.lookup entry.2.id = some stamp →
            σ.stamps.lookup entry.2.id = some stamp)) := by
  intro σ σ' put
  have hlawful : σ.Lawful := (Shared.Lawful.empty.after history).run a l.call
  have hstamps : σ'.stamps = put ++ σ.stamps := σ.stamps_after later
  obtain ⟨hmem, hstamp⟩ := Shared.listed_of_ok hok
  refine ⟨fun hopen => ⟨?_, ?_⟩, fun hother => ?_⟩
  · rw [hlawful.grammars_some hmem hstamp, Listing.made, if_pos hopen]
    rfl
  · have hstamp' : σ'.stamps.lookup l.blueprint.id = some (l.restamped put).stamp := by
      rw [hstamps, Stamps.lookup_append_of_lookup put hstamp]
      rfl
    rw [(hlawful.after later).grammars_some (Shared.mem_entries_after hmem later) hstamp',
      Listing.made, if_pos hopen]
    rfl
  · have hlist : σ'.registries a = σ.registries a := Shared.registries_after_of_ne hother
    exact ⟨hlist, Shared.Lawful.grammars_restamped hstamps hlist hlawful,
      Shared.Lawful.grammars_unchanged_iff hstamps hlist hlawful⟩

/-- Another registry knows a blueprint before the one that extends it is registered, and that one
    is then registered there, too, but not twice: just the call in the middle shows. -/
theorem registries_share_stamps_child :
    let child : Blueprint := ⟨4, "Child".toList, [1], "The Child grammar.".toList, []⟩
    let mock : Blueprint := ⟨1, "Mock1".toList, [], "The Mock1 grammar.".toList, []⟩
    let l : Listing := ⟨child, ⟨"one".toList, "do one".toList⟩⟩
    let history : List (Bool × Call) := [(true, ⟨.blueprint mock, ⟨"zero".toList, "do".toList⟩⟩)]
    let later : List (Bool × Call) := [(true, ⟨.blueprint child, ⟨"two".toList, "do two".toList⟩⟩),
      (true, ⟨.blueprint child, ⟨"three".toList, "do three".toList⟩⟩)]
    let σ := (Shared.run (Shared.empty.after history) false l.call).2
    (Shared.run (Shared.empty.after history) false l.call).1 = .ok () ∧
    (∀ c ∈ later, c.1 ≠ false) ∧
    (σ.after later).registries false = σ.registries false ∧
    (σ.after later).grammars false (some l.stamp.kind) =
      .ok [⟨child, ⟨"two".toList, "do two".toList⟩⟩] := by
  intro child mock l history later
  have hok : (Shared.run (Shared.empty.after history) false l.call).1 = .ok () := by
    decide +kernel
  have hother : ∀ c ∈ later, c.1 ≠ false := by decide
  have hput : l.restamped (stampsPut
      ((Shared.run (Shared.empty.after history) false l.call).2.succeeded later)) =
        ⟨child, ⟨"two".toList, "do two".toList⟩⟩ := by decide +kernel
  obtain ⟨hshown, hothers⟩ := registries_share_stamps history later false l hok
  -- what follows does not depend on what the state is, and is not to be checked by evaluating it
  generalize (Shared.run (Shared.empty.after history) false l.call).2 = σ at hput hshown hothers ⊢
  rw [hput] at hshown
  exact ⟨hok, hother, (hothers hother).1, (hshown rfl).2⟩

/-- **Registries are not isolated**: a blueprint that is registered elsewhere, too, shows the newer
    kind and usage. -/
theorem registries_not_isolated :
    let mock : Blueprint := ⟨1, "Mock1".toList, [], "The Mock1 grammar.".toList, []⟩
    let l : Listing := ⟨mock, ⟨"one".toList, "do one".toList⟩⟩
    let σ : Shared Bool := (Shared.run Shared.empty false l.call).2
    let later : List (Bool × Call) := [(true, ⟨.blueprint mock, ⟨"two".toList, "do two".toList⟩⟩)]
    σ.grammars false (some "one".toList) = .ok [l] ∧
    (σ.after later).grammars false (some "one".toList) ≠ .ok [l] ∧
    ((σ.after later).grammars false (some "one".toList)).map
        (List.map fun l' => (l'.stamp.kind, l'.help "bot".toList)) =
      .ok [("two".toList, " * `@bot do two` - The Mock1 grammar.".toList)] := by
  decide +kernel

end Registry

end MentionCommands
