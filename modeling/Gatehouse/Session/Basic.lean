import Gatehouse.Session.Item

/-!
# Sessions

A session is a host that drives an engine step by step: it keeps items under names and answers the
engine's lookups from replies that were stored beforehand.  A reply may do something to the engine
before it answers; what it does is written as a script of type `ε`, which only the caller of the
session can interpret, and running it gives reports of type `ρ`.

A context lives as long as a session keeps it under a name or a resolution runs under it; after each
step the others are released (`Session.settle`).
-/

namespace Gatehouse

/-- The two stores of a session. -/
inductive Store where
  /-- Tokens by secret. -/
  | secrets
  /-- Policies by name. -/
  | policies
deriving DecidableEq

namespace Store

/-- What a store is called in the record of lookups. -/
def label : Store → Text
  | secrets => "secret"
  | policies => "policy"

/-- The problem of a subject without a reply. -/
def missing (store : Store) (subject : Value) : Problem :=
  .host "LookupError" [.text ("no such " ++ store.label ++ ": " ++ subject.display)]

end Store

/-- What a store does when it is asked. -/
structure Reply (ε : Type) where
  /-- What happens before the answer. -/
  scripts : List ε
  /-- The answer, or the problem that is raised. -/
  ending : Except Problem Answer

/-- The state of a session. -/
structure Session (ε ρ : Type) where
  /-- The items by name. -/
  items : OrderedMap Text Item
  /-- The models by number. -/
  models : OrderedMap ModelId HeldModel
  /-- For the name of a model and a resource, the model whose definition of that resource was the
  last one under these names. -/
  builders : OrderedMap (Text × Text) ModelId
  /-- The parts of contexts that were cleared. -/
  clearedParts : List (ContextId × Text)
  /-- The replies of the store of secrets, by the normal forms of what is asked. -/
  secrets : OrderedMap Value (Reply ε)
  /-- The replies of the store of policies, by the normal forms of what is asked. -/
  policies : OrderedMap Value (Reply ε)
  /-- The lookups since they were last asked for, latest first. -/
  calls : List (Store × Value)
  /-- The reports of the computation that a cache asked for last. -/
  reports : List ρ

namespace Session

variable {ε ρ : Type}

/-- An engine and a session that keeps nothing. -/
def start : Engine (Session ε ρ) := .start ⟨∅, ∅, ∅, [], ∅, ∅, [], []⟩

/-- Changes the state of the session. -/
def change (f : Session ε ρ → Session ε ρ) : Action (Session ε ρ) Unit :=
  .change fun s => { s with host := f s.host }

/-! ### Items -/

/-- Keeps an item, if there is a name to keep it under. -/
def keep (name : Option Text) (item : Item) : Action (Session ε ρ) Unit :=
  match name with
  | none => .done ()
  | some name => change fun h => { h with items := h.items.insert name item }

/-- Keeps an access control list. -/
def keepAcl (name : Option Text) (a : AnyAcl) : Action (Session ε ρ) AnyAcl := do
  keep name (.acl a)
  return a

/-- The item of a name. -/
def item (name : Text) : Action (Session ε ρ) Item := fun s =>
  match s.host.items.find? name with
  | none => (.error (.ofProblem (.noSuchItem name)), s)
  | some i => (.ok i, s)

/-- The name of the shape of an item. -/
def shapeOf (i : Item) : Action (Session ε ρ) Text := .read fun s =>
  i.shapeName fun id => (s.cache id).shapeName

/-- The parts of an item that were cleared.  A cache keeps them itself. -/
def clearedOf (h : Session ε ρ) : Item → List Text
  | .model id => ((h.models.find? id).getD default).cleared
  | .context id => (h.clearedParts.filter fun e => e.1 == id).map (·.2)
  | .resolver r => r.cleared
  | _ => []

/-- Stops if a part of an item was cleared. -/
def need (i : Item) (part : Text) (otherwise : Problem) : Action (Session ε ρ) Unit := do
  if (← .read fun s => clearedOf s.host i).contains part then .problem otherwise

/-- Stops if something that an item does was cleared. -/
def ability (i : Item) (part : Text) : Action (Session ε ρ) Unit :=
  need i part (.notCallable clearedShape)

/-- What an item is, if it is of the right kind; any other item is without the part that it is asked
for. -/
def expect {α : Type} (select : Item → Option α) (part : Text) (i : Item) :
    Action (Session ε ρ) α := do
  match select i with
  | some a => do
    ability i part
    return a
  | none => .problem (i.withoutPart (← shapeOf i) part)

/-- The item of a name, if it is of the right kind. -/
def itemOf {α : Type} (select : Item → Option α) (part name : Text) :
    Action (Session ε ρ) α := do
  expect select part (← item name)

/-- The compiled policy of a name, asked for one of its parts. -/
def compiled : (part name : Text) → Action (Session ε ρ) AnyCompiled :=
  itemOf Item.compiled?

/-- The access control list of a name, asked for one of its parts. -/
def acl : (part name : Text) → Action (Session ε ρ) AnyAcl := itemOf Item.acl?

/-- The cache of a name, asked for one of its parts. -/
def cache : (part name : Text) → Action (Session ε ρ) CacheId := itemOf Item.cache?

/-- The resolver of a name, asked for one of its parts. -/
def resolver : (part name : Text) → Action (Session ε ρ) HeldResolver :=
  itemOf Item.resolver?

/-- The name that stands for the context of the innermost resolution under way. -/
def currentContext : Text := "$ctx"

/-- The context of a name, if it is one at all: no resolution may be under way. -/
def contextAt (parts : List Text) (name : Text) : Action (Session ε ρ) (Option ContextId) :=
  if name = currentContext then .read fun s => s.running.head?
  else do
    let i ← item name
    match i.context? with
    | some id => return some id
    | none => .problem (i.withoutParts (← shapeOf i) parts)

/-- The context of a name, asked for some of its parts, the last of which is to do something. -/
def contextOf (parts : List Text) (name : Text) : Action (Session ε ρ) ContextId := do
  match ← contextAt parts name with
  | none => .problem (.lacks clearedShape (parts.headD ""))
  | some id => do
    ability (.context id) (parts.getLastD "")
    return id

/-- The context of a name, asked for one of its parts. -/
def context (part name : Text) : Action (Session ε ρ) ContextId := contextOf [part] name

/-- What there is under each of several names; the first missing one is reported. -/
def each {α : Type} (get : Text → Action (Session ε ρ) α) :
    List Text → Action (Session ε ρ) (List α)
  | [] => .done []
  | name :: rest => do
    let a ← get name
    let more ← each get rest
    return a :: more

/-- A step that reports its failure as its result. -/
def attempt {α : Type} (x : Action (Session ε ρ) α) : Action (Session ε ρ) (Except Failure α) :=
  .step x

/-- What there is for something that may be absent. -/
def optional {α β : Type} (get : α → Action (Session ε ρ) β) :
    Option α → Action (Session ε ρ) (Option β)
  | none => .done none
  | some a => do
    let b ← get a
    return some b

/-! ### Contexts -/

/-- The contexts that are held: those under a name and those of resolutions under way. -/
def held (s : Engine (Session ε ρ)) : List ContextId :=
  s.host.items.values.filterMap Item.context? ++ s.running

/-- Releases the contexts that nobody holds any more. -/
def settle (s : Engine (Session ε ρ)) : Engine (Session ε ρ) :=
  { s with contexts := s.contexts.release (held s) }

/-- A step of the engine, after which the contexts that nobody holds are released. -/
def settled {α : Type} (x : Action (Session ε ρ) α) : Action (Session ε ρ) α := fun s =>
  let r := x s
  (r.1, settle r.2)

end Session

end Gatehouse
