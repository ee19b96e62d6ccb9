import Gatehouse.Model.Asked
import Gatehouse.Resolver.Resolution

/-!
# What a host holds

A host holds models and resolvers, and it can clear a part of either: the part is there no more, and
what needs it is a problem.  Clearing the mark that a model is valid opens the model again, and its
aliases stand for what they stood for until it is validated once more.  A resolver without a
collaborator takes that for a failed lookup, one without a cache stops where it needs the cache, and
one without a lifetime leaves lifetimes to its caches.  Main statements: what nothing was cleared of
works as it does otherwise (`HeldModel.expandAsked_ofModel`,
`HeldResolver.provision_of_cleared_eq_nil`).
-/

namespace Gatehouse

/-- The name of the shape of a part that was cleared. -/
def clearedShape : Text := Value.null.shapeName

/-! ### Models -/

/-- The number of a model. -/
abbrev ModelId := Nat

/-- A model that a host holds. -/
structure HeldModel where
  /-- The model. -/
  model : Model
  /-- What its aliases stand for although it is a draft. -/
  retained : NameMap (NameMap NameSet)
  /-- The parts that were cleared. -/
  cleared : List Text

namespace HeldModel

/-- A model of which nothing was cleared. -/
def ofModel (m : Model) : HeldModel := ⟨m, ∅, []⟩

instance : Inhabited HeldModel := ⟨ofModel default⟩

/-- What tells that a model is valid. -/
def validityMark : Text := "_validated"

/-- What keeps the fingerprint of a valid model. -/
def fingerprintMark : Text := "_fingerprint"

/-- Whether a part was cleared. -/
def lacks (h : HeldModel) (part : Text) : Bool := h.cleared.contains part

/-- The model with a part cleared. -/
def clearPart (part : Text) (h : HeldModel) : HeldModel :=
  let cleared := part :: h.cleared
  match h.model with
  | .validated v =>
    if part = validityMark then ⟨.draft v.resources, v.expansions, cleared⟩
    else { h with cleared := cleared }
  | .draft _ => { h with cleared := cleared }

/-- The model changed, as a draft. -/
def change (h : HeldModel) (m : Model) : HeldModel := { h with model := m }

/-- The model once it is valid: its marks are set again. -/
def validated (h : HeldModel) (v : ValidModel) : HeldModel :=
  ⟨.validated v, ∅, h.cleared.filter fun part => part != validityMark && part != fingerprintMark⟩

/-- The model as it is compiled against, which takes it as it is. -/
def asValid (h : HeldModel) : ValidModel :=
  match h.model with
  | .validated v => v
  | .draft r => ⟨r, h.retained, r.fingerprint⟩

/-- Whether the model is valid; the absent value if the mark was cleared. -/
def validity (h : HeldModel) : Value :=
  if h.lacks validityMark then .null else .bool h.model.isValidated

/-- The fingerprint of the model once it is valid. -/
def fingerprint (h : HeldModel) (v : ValidModel) : Value :=
  if h.lacks fingerprintMark then .null else .text v.fingerprint

/-- What one piece of requested data stands for. -/
def expandAsked (h : HeldModel) (resource requested : Value) : Except Problem NameSet :=
  match h.model with
  | .validated _ => h.model.expandAsked resource requested
  | .draft _ =>
    if h.retained.entries.isEmpty then h.model.expandAsked resource requested
    else do
      let (r, d) ← h.model.definitionAsked resource
      d.expandDatum ((h.retained.find? r).getD ∅) r requested

/-- A model of which nothing was cleared is asked as it is. -/
theorem expandAsked_ofModel (m : Model) (resource requested : Value) :
    (ofModel m).expandAsked resource requested = m.expandAsked resource requested := by
  cases m <;> rfl

end HeldModel

/-! ### Resolvers -/

/-- A resolver that a host holds. -/
structure HeldResolver where
  /-- The resolver. -/
  resolver : Resolver
  /-- The number of its model. -/
  model : ModelId
  /-- The parts that were cleared. -/
  cleared : List Text
deriving DecidableEq

namespace HeldResolver

/-- Whether a part was cleared. -/
def lacks (h : HeldResolver) (part : Text) : Bool := h.cleared.contains part

/-- The resolver with a part cleared; `gone` is the number of a cache that is none. -/
def clearPart (part : Text) (gone : CacheId) (h : HeldResolver) : HeldResolver :=
  if part = "_acl_ttl" then { h with resolver := { h.resolver with aclTtl := none } }
  else if part = "_policy_ttl" then { h with resolver := { h.resolver with policyTtl := none } }
  else if part = "_acl_cache" then { h with resolver := { h.resolver with aclCache := gone } }
  else if part = "_policy_cache" then { h with resolver := { h.resolver with policyCache := gone } }
  else { h with cleared := part :: h.cleared }

/-- A collaborator that is there, or else the problem of asking where there is none. -/
def collaborator {η : Type} (h : HeldResolver) (part ability : Text) (l : Lookup η) : Lookup η :=
  if h.lacks part then fun _ _ s => (.error (.lacks clearedShape ability), s) else l

/-- The compiler, or else the problem of compiling where there is none. -/
def compiler {η : Type} (h : HeldResolver) (compile : OfferedPolicy → Action η AnyCompiled) :
    OfferedPolicy → Action η AnyCompiled :=
  if h.lacks "_compile" then fun _ => .problem (.notCallable clearedShape)
  else if h.lacks "_compiler" then fun _ => .problem (.lacks clearedShape "compile")
  else compile

/-- What the resolver works with in a host where its model compiles as it does by now. -/
def provision {η : Type} (h : HeldResolver) (host : Host η)
    (compile : OfferedPolicy → Action η AnyCompiled) : Provision η where
  token := h.collaborator "_secret_resolver" "resolve_secret" host.token
  policy := h.collaborator "_policy_resolver" "resolve_policy" host.policy
  compile := h.compiler compile
  fingerprint := if h.lacks "_fingerprint" then .null else h.resolver.model.fingerprint

/-- A resolver of which nothing was cleared, whose model is as it was, works with what it has. -/
theorem provision_of_cleared_eq_nil {η : Type} {h : HeldResolver} (e : h.cleared = [])
    (host : Host η) :
    h.provision host (fun o => .ofProblem (o.compile h.resolver.model)) =
      h.resolver.provision host := by
  simp [provision, Resolver.provision, collaborator, compiler, lacks, e]

end HeldResolver

end Gatehouse
