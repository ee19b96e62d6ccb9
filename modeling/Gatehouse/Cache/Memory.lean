import Gatehouse.Collections.Ordered
import Gatehouse.Problem

/-!
# A cache in memory

A cache keeps values under keys until they expire, are dropped, or have to make room.  Entries stand
in order of insertion; writing to a present key keeps its place.  A lookup drops an expired entry
and otherwise counts a hit on the entry.  A write of a new key to a full cache first drops all
expired entries and, if that makes no room, the entry whose last access lies furthest back; of
several such entries the one inserted first (`oldest?`).

Instants are seconds as doubles and are read off a clock by the caller.
-/

namespace Gatehouse

/-- A kept value. -/
structure CacheEntry (α : Type) where
  /-- The value. -/
  value : α
  /-- When it was written. -/
  createdAt : Float
  /-- When it expires, if it does. -/
  expiresAt : Option Float
  /-- How often it was found. -/
  hitCount : Nat
  /-- When it was last written or found. -/
  lastAccessed : Float
deriving DecidableEq

/-- Whether an entry has expired. -/
def CacheEntry.isExpired {α : Type} (e : CacheEntry α) (now : Float) : Bool :=
  match e.expiresAt with
  | none => false
  | some t => decide (t ≤ now)

/-- An entry after a hit. -/
def CacheEntry.touch {α : Type} (e : CacheEntry α) (now : Float) : CacheEntry α :=
  { e with hitCount := e.hitCount + 1, lastAccessed := now }

/-- A cache with its counters. -/
structure MemoryCache (κ α : Type) where
  /-- How long an entry lives if its writer does not say: forever, or for some seconds. -/
  defaultTtl : Option Float
  /-- The number of entries it has room for. -/
  capacity : Nat
  /-- The entries in order of insertion. -/
  entries : OrderedMap κ (CacheEntry α)
  /-- The keys whose values are being computed. -/
  inFlight : List κ
  /-- Lookups that found a value. -/
  hits : Nat
  /-- Lookups that found none. -/
  misses : Nat
  /-- Entries dropped to make room. -/
  evictions : Nat
deriving DecidableEq

/-- The counters of a cache. -/
structure CacheStats where
  /-- The number of entries. -/
  entries : Nat
  /-- Lookups that found a value. -/
  hits : Nat
  /-- Lookups that found none. -/
  misses : Nat
  /-- Entries dropped to make room. -/
  evictions : Nat
  /-- The share of lookups that found a value, in percent. -/
  hitRate : Float
deriving DecidableEq

namespace MemoryCache

variable {κ α : Type} [DecidableEq κ]

/-- How long entries live in a cache that was set up without a lifetime: an hour. -/
def standardTtl : Option Float := some 3600.0

/-- The room of a cache that was set up without a capacity. -/
def standardCapacity : Nat := 10000

/-- An empty cache with room for `capacity` entries. -/
def create (defaultTtl : Option Float) (capacity : Nat) : MemoryCache κ α :=
  ⟨defaultTtl, capacity, ∅, [], 0, 0, 0⟩

/-- The live value under a key.  An expired entry is dropped, a live one counts the hit. -/
def lookup (c : MemoryCache κ α) (now : Float) (key : κ) : Option α × MemoryCache κ α :=
  match c.entries.find? key with
  | none => (none, c)
  | some e =>
    if e.isExpired now then (none, { c with entries := c.entries.erase key })
    else (some e.value, { c with entries := c.entries.insert key (e.touch now) })

/-- The value under a key, counted as a hit or a miss. -/
def get (c : MemoryCache κ α) (now : Float) (key : κ) : Option α × MemoryCache κ α :=
  match c.lookup now key with
  | (none, c) => (none, { c with misses := c.misses + 1 })
  | (some v, c) => (some v, { c with hits := c.hits + 1 })

/-- The entry whose last access lies furthest back, the first of several. -/
def oldest? : List (κ × CacheEntry α) → Option (κ × CacheEntry α)
  | [] => none
  | e :: rest =>
    match oldest? rest with
    | none => some e
    | some d => if d.2.lastAccessed < e.2.lastAccessed then some d else some e

/-- Drops the oldest entry, `n` times. -/
def dropOldest : Nat → OrderedMap κ (CacheEntry α) → OrderedMap κ (CacheEntry α)
  | 0, m => m
  | n + 1, m =>
    match oldest? m.entries with
    | none => m
    | some e => dropOldest n (m.erase e.1)

/-- Makes room for one more entry. -/
def makeRoom (c : MemoryCache κ α) (now : Float) : MemoryCache κ α :=
  if c.entries.size < c.capacity then c
  else
    let live := c.entries.filter fun _ e => !e.isExpired now
    let expired := c.entries.size - live.size
    if live.size < c.capacity then
      { c with entries := live, evictions := c.evictions + expired }
    else
      let excess := live.size - c.capacity + 1
      { c with
        entries := dropOldest excess live
        evictions := c.evictions + expired + excess }

/-- When a value written now expires: never for a lifetime of zero. -/
def expiry (c : MemoryCache κ α) (now : Float) (ttl : Option Float) : Option Float :=
  match ttl.or c.defaultTtl with
  | none => none
  | some t => if t == 0.0 then none else some (now + t)

/-- Writes a value where there is room for it. -/
def write (c : MemoryCache κ α) (now : Float) (key : κ) (value : α) (ttl : Option Float) :
    MemoryCache κ α :=
  { c with entries := c.entries.insert key ⟨value, now, c.expiry now ttl, 0, now⟩ }

/-- Writes a value, for which a new key makes room. -/
def store (c : MemoryCache κ α) (now : Float) (key : κ) (value : α) (ttl : Option Float) :
    MemoryCache κ α :=
  (if c.entries.contains key then c else c.makeRoom now).write now key value ttl

/-- Drops a key; whether it was there. -/
def invalidate (c : MemoryCache κ α) (key : κ) : Bool × MemoryCache κ α :=
  (c.entries.contains key, { c with entries := c.entries.erase key })

/-- The keys of the entries that satisfy a test, if the test can be made on all of them. -/
def matching (test : κ → α → Except Problem Bool) :
    List (κ × CacheEntry α) → Except Problem (List κ)
  | [] => .ok []
  | (k, e) :: rest =>
    match test k e.value with
    | .error p => .error p
    | .ok found =>
      match matching test rest with
      | .error p => .error p
      | .ok more => .ok (if found then k :: more else more)

/-- Drops the entries that satisfy a test; how many there were.  If the test fails on an entry,
nothing is dropped. -/
def invalidateWhere (c : MemoryCache κ α) (test : κ → α → Except Problem Bool) :
    Except Problem (Nat × MemoryCache κ α) :=
  match matching test c.entries.entries with
  | .error p => .error p
  | .ok dropped =>
    .ok (dropped.length, { c with entries := c.entries.filter fun k _ => !dropped.contains k })

/-- Drops everything; how many entries there were. -/
def clear (c : MemoryCache κ α) : Nat × MemoryCache κ α :=
  (c.entries.size, { c with entries := ∅ })

/-- The counters. -/
def stats (c : MemoryCache κ α) : CacheStats :=
  let total := c.hits + c.misses
  ⟨c.entries.size, c.hits, c.misses, c.evictions,
    if total = 0 then 0.0 else Float.ofNat c.hits / Float.ofNat total * 100.0⟩

/-! ### The two halves of a computation on a miss

A value that is asked for with a computation is looked up, the key is marked as in flight, and the
value is looked up once more, as another caller may have computed it while this one waited for its
turn.  Then the computation runs, and the mark is taken away whatever comes of it. -/

/-- The first half: the value if there is one, else a miss with the key marked. -/
def enter (c : MemoryCache κ α) (now : Float) (key : κ) : Option α × MemoryCache κ α :=
  match c.lookup now key with
  | (some v, c) => (some v, { c with hits := c.hits + 1 })
  | (none, c) =>
    let c := { c with inFlight := key :: c.inFlight }
    match c.lookup now key with
    | (some v, c) => (some v, { c with hits := c.hits + 1 })
    | (none, c) => (none, { c with misses := c.misses + 1 })

/-- The end of a computation: the mark is taken away. -/
def leave (c : MemoryCache κ α) (key : κ) : MemoryCache κ α :=
  { c with inFlight := c.inFlight.erase key }

end MemoryCache

end Gatehouse
