import Gatehouse.Policy.Offered
import Gatehouse.Session.Held

/-!
# Items

What a session keeps under a name: a model, a policy, a compiled policy, an access control list, a
cache, a context or a resolver.  Two items are the same (`Item.same`) if they have the same content,
for those that are values, or if they are one and the same thing, for those that can change.

A step may ask an item for a part that it does not have.  An object of the host's own kind has just
the attributes that it was given, which are data: it cannot do anything (`Item.withoutPart`).
-/

namespace Gatehouse

/-- Something that is kept under a name. -/
inductive Item where
  /-- A model of the session. -/
  | model (id : ModelId)
  /-- A checked policy. -/
  | policy (p : Policy)
  /-- A policy that is an object of the host's own kind. -/
  | object (o : PlainObject)
  /-- A compiled policy. -/
  | compiled (p : AnyCompiled)
  /-- An access control list. -/
  | acl (a : AnyAcl)
  /-- A cache of the engine. -/
  | cache (id : CacheId)
  /-- A context of the engine. -/
  | context (id : ContextId)
  /-- A resolver. -/
  | resolver (r : HeldResolver)
deriving DecidableEq

namespace Item

/-- The model that an item is. -/
def model? : Item → Option ModelId
  | model id => some id
  | _ => none

/-- The policy that an item passes for. -/
def policy? : Item → Option OfferedPolicy
  | policy p => some (.ofPolicy p)
  | object o => OfferedPolicy.ofObject? o
  | compiled p => some (.ofCompiled p)
  | _ => none

/-- The compiled policy that an item is. -/
def compiled? : Item → Option AnyCompiled
  | compiled p => some p
  | _ => none

/-- The access control list that an item is. -/
def acl? : Item → Option AnyAcl
  | acl a => some a
  | _ => none

/-- The cache that an item is. -/
def cache? : Item → Option CacheId
  | cache id => some id
  | _ => none

/-- The context that an item is. -/
def context? : Item → Option ContextId
  | context id => some id
  | _ => none

/-- The resolver that an item is. -/
def resolver? : Item → Option HeldResolver
  | resolver r => some r
  | _ => none

/-- An attribute of an item that is an object of the host's own kind. -/
def attribute? (name : Text) : Item → Option Value
  | object o => o.attributes.field? name
  | _ => none

/-- The name of the shape of an item, by that of a cache. -/
def shapeName (cacheShape : CacheId → Text) : Item → Text
  | model _ => "Model"
  | policy _ => "Policy"
  | object _ => PlainObject.shapeName
  | compiled _ => "CompiledPolicy"
  | acl _ => "ACL"
  | cache id => cacheShape id
  | context _ => "ResolveContext"
  | resolver _ => "Resolver"

/-- The problem of asking an item of some shape for something that it cannot do.  A checked policy
can be told to validate data, but it is told without any. -/
def withoutPart (shape part : Text) (i : Item) : Problem :=
  match i, i.attribute? part with
  | policy _, _ =>
    if part = "validate" then .misuse "BaseModel.validate" (.absent ["value"])
    else .lacks shape part
  | _, some v => .notCallable v.shapeName
  | _, none => .lacks shape part

/-- The problem of asking an item of some shape for several parts, the last of which is to do
something. -/
def withoutParts (shape : Text) (parts : List Text) (i : Item) : Problem :=
  match parts with
  | [] => .noSuchItem shape
  | [part] => i.withoutPart shape part
  | part :: rest =>
    match i.attribute? part with
    | some _ => i.withoutParts shape rest
    | none => i.withoutPart shape part

/-- The problem of merging an item of some shape, which is no compiled policy, behind policies of a
model: a list has the fingerprint of a model, but no name, and the rules of an object of the host's
own kind are no record. -/
def mergeProblem (shape : Text) (front : Value) (i : Item) : Problem :=
  match i, i.attribute? "model_fingerprint" with
  | acl _, _ => .lacks shape "name"
  | _, none => .lacks shape "model_fingerprint"
  | i, some v =>
    if front != .null && !v.same front then
      .fault (.modelMismatch ((i.attribute? "name").getD .null))
    else .lacks ((i.attribute? "rules").getD .null).shapeName "items"

/-- The shape of an item that cannot be a member of a set: an object of the host's own kind. -/
def unfitShape? : Item → Option Text
  | object _ => some PlainObject.shapeName
  | _ => none

/-- The parts of an item that can only be read, with the name of its shape. -/
def readOnlyParts : Item → Text × List Text
  | model _ => ("Model", ["validated", "fingerprint", "resources"])
  | context _ => ("ResolveContext", ["deadline", "cancelled", "reason"])
  | _ => ("", [])

/-- The problem of clearing what says what an item is. -/
def essential? (field : Text) (i : Item) : Option Problem :=
  let shape := Text.quoted clearedShape
  match i with
  | compiled _ | acl _ => none
  | i =>
    if field = "__class__" then
      some (.host "TypeError" [.text ("__class__ must be set to a class, not " ++ shape ++ " object")])
    else if field = "__dict__" then
      match i with
      | object _ => some (.host "AttributeError" [.text "readonly attribute"])
      | _ =>
        some (.host "TypeError" [.text ("__dict__ must be set to a dictionary, not a " ++ shape)])
    else none

/-- The problem of clearing a part of an item: a checked policy reports it as invalid data, unless
the part is a private one. -/
def clearing? (field : Text) (i : Item) : Option Problem :=
  (essential? field i).or <| match i with
    | compiled _ => some (.immutable "CompiledPolicy")
    | acl _ => some (.immutable "ACL")
    | policy _ =>
      if field.points.head? = some (.ofChar '_') then none
      else some (.invalid ⟨"Policy", [⟨[.field field], .frozen, none⟩], none⟩)
    | i =>
      let (shape, parts) := i.readOnlyParts
      if parts.contains field then some (.readOnly shape field) else none

/-- Whether two items, given with the names they are kept under, are the same. -/
def same : Text × Item → Text × Item → Bool
  | (_, policy p), (_, policy q) => decide (p = q)
  | (_, object o), (_, object o') => Value.same o.attributes o'.attributes
  | (_, compiled p), (_, compiled q) => p.same q
  | (_, acl a), (_, acl b) => a.same b
  | (_, cache id), (_, cache id') => id == id'
  | (_, context id), (_, context id') => id == id'
  | (_, model id), (_, model id') => id == id'
  | (name, resolver _), (name', resolver _) => name == name'
  | _, _ => false

/-- Every item is the same as itself. -/
theorem same_self (e : Text × Item) : same e e = true := by
  obtain ⟨name, item⟩ := e
  cases item <;> simp [same, Value.same_self, AnyCompiled.same_self, AnyAcl.same_self]

/-- Whether two items are one member of a set.  Compiled policies with different fingerprints are
two of them, even if they are equal. -/
def sameMember (e e' : Text × Item) : Bool :=
  same e e' && match e.2, e'.2 with
    | compiled p, compiled q => p.fingerprint == q.fingerprint
    | _, _ => true

/-- The number of members of the set of some items. -/
def distinctCount : List (Text × Item) → Nat
  | [] => 0
  | e :: rest => (if rest.any (sameMember e) then 0 else 1) + distinctCount rest

end Item

end Gatehouse
