import Gatehouse.Resolver.Resolution
import Gatehouse.Session.Models
import Gatehouse.Session.Stores
import Gatehouse.Web.Guard

/-!
# Contexts and resolvers of a session

The steps that a session makes on the engine itself: it makes and cancels contexts, sets up
resolvers, and has them resolve secrets and names and answer requests.
-/

namespace Gatehouse

namespace Session

variable {ε ρ : Type}

/-! ### Contexts -/

/-- Stops if what a context needs for having others below it was cleared. -/
def needForChildren (id : ContextId) : Action (Session ε ρ) Unit := do
  ability (.context id) "_adopt"
  need (.context id) "_lock" (.notHeld clearedShape)
  need (.context id) "_children" (.lacks clearedShape "add")

/-- Makes a context that reads the engine's clock. -/
def makeContext (name : Option Text) (parent : Option Text) (timeout : Option Float) :
    Action (Session ε ρ) Unit := do
  let above ← optional (contextAt ["_deadline"]) parent
  let _ ← optional needForChildren above.join
  let id ← Engine.newContext .engine above.join timeout
  keep name (.context id)

/-- Makes a context that nobody cancels; it reads the machine's clock. -/
def makeBackground (name : Option Text) : Action (Session ε ρ) Unit := do
  let id ← Engine.newContext .machine none none
  keep name (.context id)

/-- A context as it is now, with the reading of its clock. -/
def contextNow (id : ContextId) : Action (Session ε ρ) (Context × Float) := do
  match ← .read fun s => (s.contexts.find? id).map fun c => (c, s.reading c.source) with
  | some c => return c
  | none => .problem (.noSuchItem currentContext)

/-- Stops if the clock of a context was cleared and has to be read. -/
def needClock (id : ContextId) (isRead : Bool) : Action (Session ε ρ) Unit := do
  if isRead then ability (.context id) "_clock"

/-- Stops if what tells whether a context is cancelled was cleared. -/
def needSignal (id : ContextId) : Action (Session ε ρ) Unit := do
  need (.context id) "_event" (.lacks clearedShape "is_set")
  let (c, _) ← contextNow id
  needClock id (!c.isStopped && c.deadline.isSome)

/-- Stops if what tells how long a context has left was cleared. -/
def needRemaining (id : ContextId) : Action (Session ε ρ) Unit := do
  ability (.context id) "remaining"
  let (c, _) ← contextNow id
  needClock id c.deadline.isSome

/-- A context with all that it shows. -/
def contextState (name : Text) : Action (Session ε ρ) (Context × Float) := do
  let id ← contextOf ["cancelled", "reason", "remaining"] name
  needSignal id
  needRemaining id
  contextNow id

/-- A context that is waited for. -/
def waited (name : Text) : Action (Session ε ρ) (Context × Float) := do
  let id ← context "wait" name
  needRemaining id
  need (.context id) "_event" (.lacks clearedShape "wait")
  needSignal id
  contextNow id

/-- Makes a context below another one that reads the same clock and may also expire after some
seconds. -/
def makeTimeout (name : Option Text) (parent : Text) (seconds : Option Float) :
    Action (Session ε ρ) Unit := do
  let above ← context "with_timeout" parent
  needClock above seconds.isSome
  let lacksClock ← .read fun s => (clearedOf s.host (.context above)).contains "_clock"
  needForChildren above
  let (c, _) ← contextNow above
  let id ← Engine.newContext c.source (some above) seconds
  if lacksClock then change fun h => { h with clearedParts := (id, "_clock") :: h.clearedParts }
  keep name (.context id)

/-- Cancels a context and everything below it, for a reason if one is given.  The reason is noted
first. -/
def cancel (name : Text) (reason : Option Value) : Action (Session ε ρ) Unit := do
  let id ← context "cancel" name
  let note := fun (f : Context → Context) => Action.change fun s =>
    { s with contexts := s.contexts.update id f }
  need (.context id) "_lock" (.notHeld clearedShape)
  note fun c => { c with givenReason := c.givenReason.or reason }
  need (.context id) "_event" (.lacks clearedShape "set")
  note fun c => { c with isStopped := true }
  need (.context id) "_children" (.noElements clearedShape)
  .change fun s => { s with contexts := s.contexts.cancel id reason }

/-- The part that a resolution asks the caller's context for. -/
def callerPart : Text := "raise_if_cancelled"

/-- The context that a caller offers, if it offers one.  What has no entries counts as nothing. -/
def callerContext : Option Text → Action (Session ε ρ) (Option ContextId)
  | none => .done none
  | some name => do
    if ← isEmptyCache name then return none
    else do
      match ← contextAt [callerPart] name with
      | none => return none
      | some id => do
        ability (.context id) callerPart
        needSignal id
        return some id
where
  /-- Whether there is a cache in memory under a name, and no entry in it. -/
  isEmptyCache (name : Text) : Action (Session ε ρ) Bool := do
    match ← .read fun s => ((s.host.items.find? name).bind Item.cache?).map s.cache with
    | some (.idle _) | some .gone | none => return false
    | some (.loose c) =>
      if c.keeps then return (← .ofProblem (Cache.loose c).size) == 0 else return false
    | some c => return (← .ofProblem c.size) == 0

/-- Fails where a context is cancelled. -/
def checkContext (name : Text) : Action (Session ε ρ) Unit := do
  let id ← context callerPart name
  needSignal id
  Engine.checkContext id

/-! ### Resolvers -/

/-- The parts of a resolver that are kept under names. -/
structure NamedParts where
  /-- The model. -/
  model : Offer Text
  /-- The cache for compiled policies. -/
  policyCache : Offer Text
  /-- The cache for access control lists. -/
  aclCache : Offer Text

/-- What an offered name stands for: a part, or an item of a wrong kind. -/
def offered {α : Type} (select : Item → Option α) :
    Offer Text → Action (Session ε ρ) (Offer α)
  | .absent => .done .absent
  | .odd => .done .odd
  | .part name => do
    match select (← item name) with
    | some a => return .part a
    | none => return .odd

/-- What an offered name stands for, where a cache is wanted: it has to be able to do what a cache
can do. -/
def offeredCache (o : Offer Text) : Action (Session ε ρ) (Offer CacheId) := do
  match ← offered Item.cache? o with
  | .part id => return if ← .read fun s => (s.cache id).isAble then .part id else .odd
  | other => return other

/-- Sets up a resolver from named parts and the rest of its configuration; with `partsOnly` the
caches and lifetimes come from the settings. -/
def makeResolver (name : Option Text) (parts : NamedParts) (rest : ResolverConfig)
    (partsOnly : Bool) (settings : Settings.Source) : Action (Session ε ρ) Resolver := do
  let ids ← offered Item.model? parts.model
  let policyCache ← offeredCache parts.policyCache
  let aclCache ← offeredCache parts.aclCache
  let m ← .read fun s => ids.map s.host.modelOf
  let config := { rest with model := m, policyCache := policyCache, aclCache := aclCache }
  let config := if partsOnly then config.partsOnly else config
  let given ← fun s => match Settings.read settings with
    | .ok found => (.ok found, s)
    | .error e => (.error e, s)
  if config.isComplete then let _ ← optional needValidation ids.part?
  let r ← Resolver.create config given
  let _ ← optional reportModel ids.part?
  keep name (.resolver ⟨r, ids.part?.getD 0, []⟩)
  return r
where
  /-- Notes that a resolver has validated a model, which must then have a fingerprint. -/
  reportModel (id : ModelId) : Action (Session ε ρ) Unit := do
    let v ← validateModel id
    if (← readHeld id).fingerprint v = .null then .problem (.noComponents clearedShape)

/-- What a resolver works with: the stores of the session, and its model as it is by now. -/
def provision (run : Runner ε ρ) (r : HeldResolver) : Provision (Session ε ρ) :=
  r.provision (host run) (compileOffered r.model)

/-- Resolves a secret. -/
def resolveSecret (run : Runner ε ρ) (name : Option Text) (resolverName : Text)
    (secret : Value) (ctx : Option Text) : Action (Session ε ρ) AnyAcl := do
  let r ← resolver "resolve_secret" resolverName
  let c ← callerContext ctx
  let k ← Resolver.resolveSecret (provision run r) r.resolver secret c
  let a ← .ofProblem (k.asAcl "policies")
  keepAcl name a

/-- Resolves policy names. -/
def resolvePolicies (run : Runner ε ρ) (name : Option Text) (resolverName : Text)
    (names : Value) (ctx : Option Text) : Action (Session ε ρ) AnyAcl := do
  let r ← resolver "resolve_policies" resolverName
  let c ← callerContext ctx
  let a ← Resolver.resolvePolicies (provision run r) r.resolver names c
  keepAcl name a

/-- Resolves one policy name. -/
def resolvePolicy (run : Runner ε ρ) (name : Option Text) (resolverName : Text)
    (policyName : Value) (ctx : Option Text) : Action (Session ε ρ) AnyCompiled := do
  let r ← resolver "resolve_policy" resolverName
  let c ← callerContext ctx
  let k ← Resolver.resolvePolicy (provision run r) r.resolver policyName c
  let p ← .ofProblem (k.asPolicy "name")
  keep name (.compiled p)
  return p

/-- The counters of the caches of a resolver: that of compiled policies and that of lists. -/
def resolverStats (resolverName : Text) : Action (Session ε ρ) (CacheStats × CacheStats) := do
  match ← item resolverName with
  | .cache _ => .problem (.lacks "CacheStats" "items")
  | i => do
    let r ← expect Item.resolver? "stats" i
    let compiled ← Engine.cacheStats r.resolver.policyCache
    let lists ← Engine.cacheStats r.resolver.aclCache
    return (compiled, lists)

/-- Drops the list of a secret; whether it was there. -/
def invalidateSecret (run : Runner ε ρ) (resolverName : Text) (secret : Value) :
    Action (Session ε ρ) Bool := do
  let r ← resolver "invalidate_secret" resolverName
  Resolver.invalidateSecret (provision run r) r.resolver secret

/-- Drops what depends on a policy; how many entries there were. -/
def invalidatePolicy (run : Runner ε ρ) (resolverName : Text) (policyName : Value) :
    Action (Session ε ρ) Nat := do
  let r ← resolver "invalidate_policy" resolverName
  Resolver.invalidatePolicy (provision run r) r.resolver policyName

/-- Empties the caches of a resolver; how many entries there were. -/
def clearCaches (resolverName : Text) : Action (Session ε ρ) Nat := do
  let r ← resolver "clear_caches" resolverName
  r.resolver.clearCaches

/-- Answers a request.  A request without a secret is refused before the resolver is asked. -/
def answer (run : Runner ε ρ) (resolverName : Text) (g : Web.Guard) (request : Web.Request) :
    Action (Session ε ρ) (Except Web.Refusal AnyAcl) := do
  let i ← item resolverName
  match request.secret? with
  | none => return .error .noSecret
  | some _ => do
    let _ ← .ofProblem (g.item request)
    let r ← expect Item.resolver? "resolve_secret" i
    g.answer (provision run r) r.resolver request

end Session

end Gatehouse
