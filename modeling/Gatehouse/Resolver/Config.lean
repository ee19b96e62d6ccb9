import Gatehouse.Engine.Steps
import Gatehouse.Settings.Basic

/-!
# Setting up a resolver

A resolver needs a model and the host's two collaborators; caches and lifetimes may be left to the
settings.  What is offered for a part may be missing or of a wrong kind: parts of a wrong kind are
reported first, then missing ones, then a model that does not validate.
-/

namespace Gatehouse

open Validation

/-- What is offered for a part of a resolver. -/
inductive Offer (α : Type) where
  /-- Nothing. -/
  | absent
  /-- A part of the right kind. -/
  | part (a : α)
  /-- Something of a wrong kind. -/
  | odd

namespace Offer

variable {α : Type}

/-- The part, if there is one. -/
def part? : Offer α → Option α
  | .part a => some a
  | _ => none

/-- Whether something of a wrong kind is offered. -/
def isOdd : Offer α → Bool
  | .odd => true
  | _ => false

/-- The offer with its part changed. -/
def map {β : Type} (f : α → β) : Offer α → Offer β
  | .absent => .absent
  | .part a => .part (f a)
  | .odd => .odd

end Offer

/-- What a resolver is set up with. -/
structure ResolverConfig where
  /-- The model. -/
  model : Offer Model
  /-- The collaborator for secrets. -/
  secretResolver : Offer Unit
  /-- The collaborator for policies. -/
  policyResolver : Offer Unit
  /-- The cache for compiled policies. -/
  policyCache : Offer CacheId
  /-- The cache for access control lists. -/
  aclCache : Offer CacheId
  /-- How long access control lists are kept. -/
  aclTtl : Value
  /-- How long compiled policies are kept. -/
  policyTtl : Value

namespace ResolverConfig

/-- The fault of a part of a wrong kind. -/
def misfit (field : Text) (issues : List Issue) : Failure :=
  let wording := match issues with
    | [] => ""
    | i :: _ => i.complaint.message
  ⟨.fault (.configuration field ("is invalid: " ++ wording : Text)),
    some (.invalid ⟨"ResolverConfig", issues, none⟩)⟩

/-- A part is of the right kind or absent. -/
def checkPart {α : Type} (field type : Text) (o : Offer α) : Except Failure Unit :=
  if o.isOdd then .error (misfit field [⟨[.field field], .notInstance type, none⟩]) else .ok ()

/-- A lifetime, if there is one. -/
def checkTtl (field : Text) (v : Value) : Except Failure (Option Float) :=
  match v with
  | .null => .ok none
  | v => ((checkSeconds v).map some).mapError (misfit field)

/-- The lifetimes of a configuration whose parts are of the right kind. -/
def checkParts (c : ResolverConfig) : Except Failure (Option Float × Option Float) := do
  checkPart "model" "Model" c.model
  checkPart "secret_resolver" "SecretResolver" c.secretResolver
  checkPart "policy_resolver" "PolicyResolver" c.policyResolver
  checkPart "policy_cache" "Cache" c.policyCache
  checkPart "acl_cache" "Cache" c.aclCache
  let aclTtl ← checkTtl "acl_ttl_seconds" c.aclTtl
  let policyTtl ← checkTtl "policy_ttl_seconds" c.policyTtl
  return (aclTtl, policyTtl)

/-- A required part. -/
def require {α : Type} (field : Text) (o : Offer α) : Except Failure α :=
  match o.part? with
  | none => .error (.ofFault (.configuration field "is required"))
  | some a => .ok a

/-- Whether all required parts are there and all parts are of the right kind. -/
def isComplete (c : ResolverConfig) : Bool :=
  c.checkParts.toOption.isSome && c.model.part?.isSome && c.secretResolver.part?.isSome &&
    c.policyResolver.part?.isSome

/-- The validated model of a complete configuration. -/
def completeModel (c : ResolverConfig) : Except Failure ValidModel := do
  let model ← require "model" c.model
  require "secret_resolver" c.secretResolver
  require "policy_resolver" c.policyResolver
  model.validate.mapError fun f =>
    ⟨.fault (.configuration "model" ("is invalid: " ++ f.message : Text)), some (.fault f)⟩

/-- The part of a configuration that leaves caches and lifetimes to the settings. -/
def partsOnly (c : ResolverConfig) : ResolverConfig :=
  { c with policyCache := .absent, aclCache := .absent, aclTtl := .null, policyTtl := .null }

end ResolverConfig

/-- A resolver: its model, the caches that it uses, and how long it keeps things there. -/
structure Resolver where
  /-- The model. -/
  model : ValidModel
  /-- The cache for compiled policies. -/
  policyCache : CacheId
  /-- The cache for access control lists. -/
  aclCache : CacheId
  /-- How long compiled policies are kept, in seconds, if the cache does not say. -/
  policyTtl : Option Float
  /-- How long access control lists are kept, in seconds, if the cache does not say. -/
  aclTtl : Option Float
deriving DecidableEq

namespace Resolver

/-- A cache of the configuration, or a fresh one. -/
def cacheOr {η : Type} (o : Offer CacheId) (fresh : EngineCache) : Action η CacheId :=
  match o.part? with
  | some id => .done id
  | none => Engine.newCache fresh

/-- Sets up a resolver. -/
def create {η : Type} (c : ResolverConfig) (settings : Settings) : Action η Resolver :=
  match c.checkParts with
  | .error e => .fail e
  | .ok (aclTtl, policyTtl) =>
    match c.completeModel with
    | .error e => .fail e
    | .ok model => do
      let policyCache ← cacheOr c.policyCache settings.policyCache
      let aclCache ← cacheOr c.aclCache settings.aclCache
      return ⟨model, policyCache, aclCache, policyTtl.or (some settings.policyTtl),
        aclTtl.or (some settings.aclTtl)⟩

end Resolver

end Gatehouse
