/-
  Registries of grammars.

  A registry lists blueprints of grammars under kinds, in the order of registration.  Registering
  a blueprint puts a stamp on it, which holds its kind and its usage.  The stamp is on the
  blueprint itself: all registries see it, a later registration elsewhere replaces it, and a
  blueprint without a stamp of its own shows the stamp of the nearest blueprint that it extends.
  Grammars are made of blueprints when a registry is asked for them; a blueprint that leaves methods
  open is registered like any other one, and fails then.

  * `Registry.register` registers a candidate, or says why not, and then changes nothing;
  * `Blueprint.make` makes a grammar of a blueprint;
  * `Registry.grammars` makes the registered grammars, all of them or those of one kind.
-/
import MentionCommands.Grammar.Basic

namespace MentionCommands

/-! ## Blueprints and stamps -/

/-- A blueprint of grammars. -/
structure Blueprint where
  /-- What makes it this blueprint; another one may have its name. -/
  id : Nat
  name : Text
  /-- The blueprints that it extends, the nearest one first. -/
  ancestors : List Nat
  description : Text
  /-- The methods that it leaves open. -/
  openMethods : List Text
  deriving DecidableEq, Repr

/-- What registration puts on a blueprint. -/
structure Stamp where
  kind : Text
  usage : Text
  deriving DecidableEq, Repr

/-- The stamps on blueprints, the newest one first. -/
abbrev Stamps := List (Nat × Stamp)

/-- The stamp that a blueprint shows: its own, or that of the nearest one that it extends. -/
def Stamps.of? (stamps : Stamps) (b : Blueprint) : Option Stamp :=
  (b.id :: b.ancestors).findSome? (List.lookup · stamps)

/-- What somebody tries to register. -/
inductive Candidate where
  /-- A blueprint of grammars. -/
  | blueprint (b : Blueprint)
  /-- Anything else, as it is shown. -/
  | other (shown : Text)
  deriving DecidableEq, Repr

/-! ## Errors -/

/-- Why a registry refuses. -/
inductive RegistryError where
  /-- The candidate is no blueprint of grammars. -/
  | notGrammar (shown : Text)
  /-- The blueprint is registered. -/
  | knownBlueprint (name : Text)
  /-- Another blueprint is registered under the kind. -/
  | knownKind (kind : Text)
  /-- The blueprint has no stamp, so it lacks what is asked for. -/
  | unstamped (name lacking : Text)
  /-- The blueprint leaves methods open, so no grammar is made of it. -/
  | unfinished (name : Text) (openMethods : List Text)
  deriving DecidableEq, Repr

/-- The sentence of an error. -/
def RegistryError.message : RegistryError → Text
  | notGrammar shown => shown ++ " must be a class that inherits from CommandGrammar".toList
  | knownBlueprint name => name ++ " is already registered.".toList
  | knownKind kind => kind ++ " is already registered.".toList
  | unstamped name lacking =>
    ['\''] ++ name ++ "' object has no attribute '".toList ++ lacking ++ ['\'']
  | unfinished name openMethods =>
    "Can't instantiate abstract class ".toList ++ name ++ " with abstract method".toList ++
      (if openMethods.length = 1 then [] else ['s']) ++ [' '] ++
      Text.join ", ".toList openMethods

/-- The help line of a blueprint, by a grammar that is made of it. -/
def Blueprint.help (b : Blueprint) (stamps : Stamps) (bot : Text) : Except RegistryError Text :=
  if b.openMethods.isEmpty then
    match stamps.of? b with
    | some stamp => .ok (helpLine bot stamp.usage b.description)
    | none => .error (.unstamped b.name "usage".toList)
  else .error (.unfinished b.name b.openMethods)

/-! ## Registries -/

/-- A registry: blueprints under kinds, in the order of registration. -/
structure Registry where
  entries : List (Text × Blueprint)
  deriving DecidableEq, Repr

/-- A grammar that a registry gives out. -/
structure Listing where
  blueprint : Blueprint
  stamp : Stamp
  deriving DecidableEq, Repr

/-- The help line of a listed grammar. -/
def Listing.help (l : Listing) (bot : Text) : Text :=
  helpLine bot l.stamp.usage l.blueprint.description

/-- A grammar of a blueprint, with the stamp that it shows now. -/
def Blueprint.make (b : Blueprint) (stamps : Stamps) : Except RegistryError Listing :=
  if b.openMethods.isEmpty then
    match stamps.of? b with
    | some stamp => .ok ⟨b, stamp⟩
    | none => .error (.unstamped b.name "kind".toList)
  else .error (.unfinished b.name b.openMethods)

namespace Registry

/-- The registry of nothing. -/
def empty : Registry := ⟨[]⟩

/-- The kinds under which blueprints are registered. -/
def kinds (r : Registry) : List Text := r.entries.map Prod.fst

/-- The registered blueprints, by what makes them these. -/
def ids (r : Registry) : List Nat := r.entries.map (·.2.id)

/-- Registers a candidate, and puts the stamp on it. -/
def register (r : Registry) (stamps : Stamps) (c : Candidate) (stamp : Stamp) :
    Except RegistryError (Registry × Stamps) :=
  match c with
  | .other shown => .error (.notGrammar shown)
  | .blueprint b =>
    if r.ids.contains b.id then .error (.knownBlueprint b.name)
    else if r.kinds.contains stamp.kind then .error (.knownKind stamp.kind)
    else .ok (⟨r.entries ++ [(stamp.kind, b)]⟩, (b.id, stamp) :: stamps)

/-- The registered grammars, or those of one kind, made one after another. -/
def grammars (r : Registry) (stamps : Stamps) (kind : Option Text) :
    Except RegistryError (List Listing) :=
  (r.entries.filter fun entry => kind.all (entry.1 == ·)).mapM fun entry => entry.2.make stamps

end Registry

end MentionCommands
