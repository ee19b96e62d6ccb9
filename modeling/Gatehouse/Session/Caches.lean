import Gatehouse.Session.Stores

/-!
# Clock and caches of a session

The steps that a session makes on the clock and on the caches that it keeps.  A `KeyTest` says which
keys of a cache a step is about; on a key that it cannot judge it is a problem.
-/

namespace Gatehouse

/-- Which keys of a cache are meant. -/
inductive KeyTest where
  /-- All of them. -/
  | all
  /-- None. -/
  | none
  /-- The one key. -/
  | equals (key : CacheKey)
  /-- The tuples with this first item, which is no tuple itself. -/
  | first (item : Value)
  /-- The keys of more characters or items than a number says. -/
  | longer (bound : Value)

namespace KeyTest

/-- Whether a number is greater than what the data says. -/
def exceeds (n : Nat) : Value → Except Problem Bool
  | .bool b => .ok (decide (b.toNat < n))
  | .int bound => .ok (decide (bound < n))
  | .real bound => .ok (decide (bound < Float.ofNat n))
  | v => .error (.noBound v.shapeName)

/-- Whether a key is a tuple whose first item is a piece of data other than a sequence. -/
def beginsWith (item : Value) (k : CacheKey) : Bool :=
  match item with
  | .list _ => false
  | v => k.first?.any (CacheKey.same (.ofValue v))

/-- Whether a key is meant. -/
def holds : KeyTest → CacheKey → Except Problem Bool
  | all, _ => .ok true
  | none, _ => .ok false
  | equals key, k => .ok (k.same key)
  | first item, k => .ok (beginsWith item k)
  | longer bound, k =>
    match k.length with
    | .error p => .error p
    | .ok n => exceeds n bound

end KeyTest

namespace Session

variable {ε ρ : Type}

/-- Changes the reading of the clock; the new one. -/
def setClock (f : Float → Float) : Action (Session ε ρ) Float := .step fun s =>
  (f s.clock, { s with clock := f s.clock })

/-- Makes a cache. -/
def makeCache (name : Option Text) (fresh : Except Problem EngineCache) :
    Action (Session ε ρ) Unit := do
  let c ← .ofProblem fresh
  let id ← Engine.newCache c
  keep name (.cache id)

/-- The value under a key of a cache. -/
def getFrom (name : Text) (key : CacheKey) : Action (Session ε ρ) (Option Kept) := do
  let id ← cache "get" name
  Engine.cacheGet id key

/-- Writes a value that may be absent. -/
def putInto (name : Text) (key : CacheKey) (value : Option Kept) (ttl : Option Float) :
    Action (Session ε ρ) Unit := do
  let id ← cache "put" name
  Engine.cachePut id key value ttl

/-- Drops a key of a cache; whether it was there. -/
def invalidateIn (name : Text) (key : CacheKey) : Action (Session ε ρ) Bool := do
  let id ← cache "invalidate" name
  Engine.cacheInvalidate id key

/-- Drops the keys of a cache that are meant; how many there were. -/
def invalidateWhere (name : Text) (test : KeyTest) : Action (Session ε ρ) Nat := do
  let id ← cache "invalidate_where" name
  Engine.cacheInvalidateWhere id test.holds

/-- Empties a cache; how many entries there were. -/
def clearCache (name : Text) : Action (Session ε ρ) Nat := do
  let id ← cache "clear" name
  Engine.cacheClear id

/-- The counters of a cache. -/
def cacheStats (name : Text) : Action (Session ε ρ) CacheStats := do
  match ← item name with
  | .resolver _ => .problem (.lacks (Value.object []).shapeName "total_entries")
  | i => do
    let id ← expect Item.cache? "stats" i
    Engine.cacheStats id

/-- The entries of a cache in memory; nothing else has a number of entries. -/
def cacheEntries (name : Text) : Action (Session ε ρ) (List (CacheEntry Deposit)) := do
  let i ← item name
  match ← .read fun s => i.cache?.map s.cache with
  | some c => do
    let _ ← .ofProblem c.size
    return c.entries.map (·.2)
  | none => .problem (.noLength (← shapeOf i))

end Session

end Gatehouse
