import Gatehouse.Cache.Key
import Gatehouse.Cache.Memory
import Gatehouse.Value.Order

/-!
# Caches with parts of any shape

A host may give a cache a capacity that is no whole number, and it may clear a part of a cache: the
part is there no more, and what needs it is a problem.  A `LooseCache` is a cache of which this may
be so.  It goes through the same steps as any other, and at each step that needs a cleared part it
stops; what was changed before stays changed.

A number of entries can be compared with a capacity that is no whole number, but no entries can be
counted by it.  So such a cache works as long as dropping expired entries makes enough room.
-/

namespace Gatehouse

/-- A cache with parts of any shape. -/
structure LooseCache (α : Type) where
  /-- Whether it keeps anything. -/
  keeps : Bool
  /-- Its contents and counters; if it keeps nothing, only the misses matter. -/
  memory : MemoryCache CacheKey α
  /-- The number of entries it has room for. -/
  capacity : Value
  /-- The parts that were cleared. -/
  cleared : List Text
deriving DecidableEq

namespace LooseCache

variable {α β : Type}

/-- The name of the shape of a cache. -/
def shapeName (c : LooseCache α) : Text := if c.keeps then "MemoryCache" else "NullCache"

/-- The name of the shape of a cleared part. -/
def clearedShape : Text := Value.null.shapeName

/-- What everything that counts as a cache can do. -/
def abilities : List Text :=
  ["get", "put", "get_or_compute", "invalidate", "invalidate_where", "clear", "stats"]

/-- Whether the cache can do what a cache can do. -/
def isAble (c : LooseCache α) : Bool := !abilities.any c.cleared.contains

/-- The cache with a part cleared. -/
def clearPart (part : Text) (c : LooseCache α) : LooseCache α :=
  if part = "default_ttl" then { c with memory := { c.memory with defaultTtl := none } }
  else if part = "max_entries" then { c with capacity := .null }
  else { c with cleared := part :: c.cleared }

/-! ### Steps -/

/-- A step on a cache, which may stop with a problem. -/
abbrev Use (α β : Type) := ExceptT Problem (StateM (LooseCache α)) β

/-- Stops if a part was cleared. -/
def need (part : Text) (otherwise : Problem) : Use α Unit := do
  if (← get).cleared.contains part then throw otherwise

/-- Stops if something that the cache does was cleared. -/
def ability (part : Text) : Use α Unit := need part (.notCallable clearedShape)

/-- Holds the cache, which is what all its steps begin with. -/
def hold : Use α Unit := need "_lock" (.notHeld clearedShape)

/-- Changes the contents. -/
def change (f : MemoryCache CacheKey α → MemoryCache CacheKey α) : Use α Unit :=
  modify fun c => { c with memory := f c.memory }

/-- Changes the contents, with a result. -/
def act (f : MemoryCache CacheKey α → β × MemoryCache CacheKey α) : Use α β := do
  let r := f (← get).memory
  change fun _ => r.2
  return r.1

/-- Changes a counter. -/
def count (part : Text) (f : MemoryCache CacheKey α → MemoryCache CacheKey α) : Use α Unit := do
  need part (.notCombinable "+=" clearedShape "int")
  change f

/-- Counts a hit. -/
def countHit : Use α Unit := count "_hits" fun m => { m with hits := m.hits + 1 }

/-- Counts a miss. -/
def countMiss : Use α Unit := count "_misses" fun m => { m with misses := m.misses + 1 }

/-- Stops if a key cannot be looked up. -/
def fit (key : CacheKey) : Use α Unit :=
  match key.unfit? with
  | some shape => throw (.unfitForKey shape)
  | none => return ()

/-- Whether the cache has room for one more entry than it has. -/
def hasRoom : Use α Bool := do
  let c ← get
  match Value.less (.int c.memory.entries.size) c.capacity with
  | .ok b => return b
  | .error i => throw (.notOrdered i)

/-- The live value under a key. -/
def lookup (now : Float) (key : CacheKey) : Use α (Option α) := do
  ability "_lookup"
  need "_entries" (.lacks clearedShape "get")
  fit key
  if (← get).memory.entries.contains key then
    ability "_clock"
    act fun m => m.lookup now key
  else return none

/-- The value under a key, counted as a hit or a miss. -/
def find (now : Float) (key : CacheKey) : Use α (Option α) := do
  ability "get"
  if (← get).keeps then
    hold
    let found ← lookup now key
    if found.isSome then countHit else countMiss
    return found
  else
    countMiss
    return none

/-- Makes room for one more entry. -/
def makeRoom (now : Float) : Use α Unit := do
  ability "_evict_if_needed"
  if ← hasRoom then return ()
  else
    let size := (← get).memory.entries.size
    change fun m => { m with entries := m.entries.filter fun _ e => !e.isExpired now }
    let live := (← get).memory.entries.size
    count "_evictions" fun m => { m with evictions := m.evictions + (size - live) }
    if ← hasRoom then return ()
    else
      match (← get).capacity.number? with
      | some (.whole n) =>
        let excess := (live - n + 1).toNat
        change fun m => { m with entries := MemoryCache.dropOldest excess m.entries }
        count "_evictions" fun m => { m with evictions := m.evictions + excess }
      | _ => throw .noPlace

/-- Writes a value that may be absent. -/
def put (now : Float) (key : CacheKey) (value : Option α) (ttl : Option Float) : Use α Unit := do
  ability "put"
  if (← get).keeps then
    match value with
    | none => throw .nothingToKeep
    | some v => do
      ability "_clock"
      hold
      need "_entries" (.noMembers clearedShape)
      fit key
      if !(← get).memory.entries.contains key then makeRoom now
      change fun m => m.write now key v ttl

/-- Drops a key; whether it was there.  Where nothing is kept, the key is not looked at. -/
def invalidate (key : CacheKey) : Use α Bool := do
  ability "invalidate"
  if (← get).keeps then
    hold
    need "_entries" (.lacks clearedShape "pop")
    if (← get).memory.entries.entries.isEmpty then return false
    else
      fit key
      act fun m => m.invalidate key
  else return false

/-- Drops the entries that satisfy a test; how many there were. -/
def invalidateWhere (test : CacheKey → α → Except Problem Bool) : Use α Nat := do
  ability "invalidate_where"
  if (← get).keeps then
    hold
    need "_entries" (.noElements clearedShape)
    match (← get).memory.invalidateWhere test with
    | .error p => throw p
    | .ok (n, m) => do
      change fun _ => m
      return n
  else return 0

/-- Drops everything; how many entries there were. -/
def clear : Use α Nat := do
  ability "clear"
  if (← get).keeps then
    hold
    need "_entries" (.noLength clearedShape)
    act MemoryCache.clear
  else return 0

/-- The problem of counters that are not what counters are. -/
def misfit (counter : Text) : Problem :=
  .invalid ⟨"CacheStats", [⟨[.field counter], .notInteger, some .null⟩], none⟩

/-- The counters. -/
def stats : Use α CacheStats := do
  ability "stats"
  let c ← get
  let shape := fun part => if c.cleared.contains part then clearedShape else "int"
  if c.keeps then
    hold
    if c.cleared.contains "_hits" || c.cleared.contains "_misses" then
      throw (.notCombinable "+" (shape "_hits") (shape "_misses"))
    need "_entries" (.noLength clearedShape)
    need "_evictions" (misfit "evictions")
    return c.memory.stats
  else
    need "_misses" (misfit "total_misses")
    return ⟨0, 0, c.memory.misses, 0, 0.0⟩

/-- The number of entries. -/
def size : Use α Nat := do
  let c ← get
  if c.keeps then
    hold
    need "_entries" (.noLength clearedShape)
    return c.memory.entries.size
  else throw (.noLength c.shapeName)

/-- The first half of a computation on a miss: the value, or a miss with the key marked. -/
def enter (now : Float) (key : CacheKey) : Use α (Option α) := do
  ability "get_or_compute"
  if (← get).keeps then
    hold
    match ← lookup now key with
    | some v => do
      countHit
      return some v
    | none => do
      need "_inflight" (.lacks clearedShape "setdefault")
      countMiss
      change fun m => { m with inFlight := key :: m.inFlight }
      return none
  else
    countMiss
    return none

/-- The end of a computation: the mark is taken away. -/
def leave (key : CacheKey) : Use α Unit := do
  if (← get).keeps then
    hold
    need "_inflight" (.lacks clearedShape "get")
    change fun m => m.leave key

end LooseCache

end Gatehouse
