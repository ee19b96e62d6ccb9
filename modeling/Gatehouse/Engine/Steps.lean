import Gatehouse.Engine.Action

/-!
# Steps of an engine

What the parts of the library do to an engine: they make and check contexts, run under them, and
make and use caches, always by the reading of the engine's clock.
-/

namespace Gatehouse

namespace Engine

variable {η : Type}

/-! ### Contexts -/

/-- Makes a context. -/
def newContext (source : TimeSource) (parent : Option ContextId) (timeout : Option Float) :
    Action η ContextId := .step fun s =>
  let r := s.contexts.create source parent timeout (s.reading source)
  (r.2, { s with contexts := r.1 })

/-- The context of a resolution: the caller's, or one that nobody cancels. -/
def contextFor (ctx : Option ContextId) : Action η ContextId :=
  match ctx with
  | some id => .done id
  | none => newContext .machine none none

/-- The fault of going on under a cancelled context. -/
def checkContext (id : ContextId) : Action η Unit := fun s =>
  match s.contexts.find? id with
  | none => (.ok (), s)
  | some c => Action.ofFault (c.check (s.reading c.source)) s

/-- Runs a step as part of a resolution under a context. -/
def under {α : Type} (id : ContextId) (x : Action η α) : Action η α := fun s =>
  let r := x { s with running := id :: s.running }
  (r.1, { r.2 with running := s.running })

/-! ### Caches -/

/-- Adds a cache. -/
def newCache (c : EngineCache) : Action η CacheId := .step fun s =>
  (s.caches.size, s.setCache s.caches.size c)

/-- A step on a cache. -/
def onCache {α : Type} (id : CacheId) (f : EngineCache → Except Problem α × EngineCache) :
    Action η α := fun s =>
  let r := f (s.cache id)
  (r.1.mapError .ofProblem, s.setCache id r.2)

/-- Looks a key up. -/
def cacheGet (id : CacheId) (key : CacheKey) : Action η (Option Kept) := fun s =>
  onCache id (fun c =>
    let r := c.get s.clock key.normal
    (r.1.map (Option.map Deposit.value), r.2)) s

/-- Writes a value that may be absent.  An absent value is refused before its key is looked at. -/
def cachePut (id : CacheId) (key : CacheKey) (value : Option Kept) (ttl : Option Float) :
    Action η Unit := fun s =>
  onCache id (fun c => c.put s.clock key.normal (value.map (c.deposit key)) ttl) s

/-- Drops a key; whether it was there. -/
def cacheInvalidate (id : CacheId) (key : CacheKey) : Action η Bool :=
  onCache id fun c => c.invalidate key.normal

/-- Drops the entries whose labels satisfy a test; how many there were. -/
def cacheInvalidateWhere (id : CacheId) (test : CacheKey → Except Problem Bool) :
    Action η Nat :=
  onCache id fun c => c.invalidateWhere fun _ d => test d.label

/-- Drops everything; how many entries there were. -/
def cacheClear (id : CacheId) : Action η Nat := onCache id Cache.clear

/-- The counters. -/
def cacheStats (id : CacheId) : Action η CacheStats := fun s =>
  Action.ofProblem (s.cache id).stats s

/-- Computes a value and keeps it. -/
def computeAndPut (id : CacheId) (key : CacheKey) (compute : Action η (Option Kept))
    (ttl : Option Float) : Action η (Option Kept) := do
  let v ← compute
  cachePut id key v ttl
  return v

/-- The value under a key, computed and kept on a miss.  A computation that fails keeps nothing, and
one that misses its own key would wait for itself. -/
def cacheGetOrCompute (id : CacheId) (key : CacheKey) (compute : Action η (Option Kept))
    (ttl : Option Float) : Action η (Option Kept) := fun s =>
  match onCache id (fun c => c.enter s.clock key.normal) s with
  | (.error e, s) => (.error e, s)
  | (.ok (some d), s) => (.ok (some d.value), s)
  | (.ok none, entered) =>
    if (s.cache id).isInFlight key.normal then (.error (.ofProblem .waitsForItself), s)
    else
      let r := computeAndPut id key compute ttl entered
      let left := onCache id (fun c => c.leave key.normal) r.2
      (left.1.bind fun _ => r.1, left.2)

end Engine

end Gatehouse
