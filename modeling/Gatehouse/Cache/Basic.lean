import Gatehouse.Cache.Loose

/-!
# Caches

A cache is one in memory, or one that never keeps anything and counts its lookups only.  A cache may
also have parts of any shape, and where a cache is meant there may be none.  A cache in memory
refuses keys that cannot be looked up, before anything else happens.  On a key that can be looked
up, it does what a `MemoryCache` does (`Cache.get_memory`, `Cache.put_memory`,
`Cache.enter_memory`).
-/

namespace Gatehouse

/-- A cache. -/
inductive Cache (α : Type) where
  /-- Keeps nothing. -/
  | idle (misses : Nat)
  /-- Keeps values in memory. -/
  | memory (cache : MemoryCache CacheKey α)
  /-- Has parts of any shape. -/
  | loose (cache : LooseCache α)
  /-- There is none. -/
  | gone
deriving DecidableEq

namespace Cache

variable {α β : Type}

instance : Inhabited (Cache α) := ⟨.idle 0⟩

/-- The name of the shape of a cache. -/
def shapeName : Cache α → Text
  | idle _ => "NullCache"
  | memory _ => "MemoryCache"
  | loose c => c.shapeName
  | gone => Value.null.shapeName

/-- A cache with room for as many entries as a piece of data says; there must be room for one. -/
def create? (defaultTtl : Option Float) (capacity : Value) : Except Problem (Cache α) :=
  match Value.less capacity (.int 1) with
  | .error i => .error (.notOrdered i)
  | .ok true => .error .noRoom
  | .ok false =>
    match capacity.number? with
    | some (.whole n) => .ok (memory (.create defaultTtl n.toNat))
    | _ => .ok (loose ⟨true, .create defaultTtl 0, capacity, []⟩)

/-- The cache as one with parts of any shape. -/
def loosen : Cache α → LooseCache α
  | idle misses => ⟨false, { MemoryCache.create none 0 with misses := misses }, .null, []⟩
  | memory m => ⟨true, m, .int m.capacity, []⟩
  | loose c => c
  | gone => ⟨false, .create none 0, .null, LooseCache.abilities⟩

/-- The cache with a part cleared.  Without a default lifetime, entries live forever. -/
def clearPart (part : Text) : Cache α → Cache α
  | memory m =>
    if part = "default_ttl" then memory { m with defaultTtl := none }
    else loose ((memory m).loosen.clearPart part)
  | gone => gone
  | c => loose (c.loosen.clearPart part)

/-- Whether something can do what a cache can do. -/
def isAble : Cache α → Bool
  | loose c => c.isAble
  | gone => false
  | _ => true

/-- The problem of asking for something where there is no cache. -/
def missing (part : Text) : Problem := .lacks (Value.null.shapeName) part

/-- A step on a cache with parts of any shape. -/
def use (x : LooseCache.Use α β) (c : LooseCache α) : Except Problem β × Cache α :=
  let r := x.run.run c
  (r.1, loose r.2)

/-- A step on a cache in memory that looks a key up. -/
def withKey (m : MemoryCache CacheKey α) (key : CacheKey)
    (f : MemoryCache CacheKey α → β × MemoryCache CacheKey α) : Except Problem β × Cache α :=
  match key.unfit? with
  | some shape => (.error (.unfitForKey shape), memory m)
  | none => let r := f m; (.ok r.1, memory r.2)

/-- The value under a key, counted as a hit or a miss. -/
def get (c : Cache α) (now : Float) (key : CacheKey) : Except Problem (Option α) × Cache α :=
  match c with
  | idle misses => (.ok none, idle (misses + 1))
  | memory m => withKey m key fun m => m.get now key
  | loose c => use (LooseCache.find now key) c
  | gone => (.error (missing "get"), gone)

/-- Writes a value that may be absent.  A cache in memory refuses the absent value. -/
def put (c : Cache α) (now : Float) (key : CacheKey) (value : Option α) (ttl : Option Float) :
    Except Problem Unit × Cache α :=
  match c, value with
  | idle misses, _ => (.ok (), idle misses)
  | memory m, none => (.error .nothingToKeep, memory m)
  | memory m, some v => withKey m key fun m => ((), m.store now key v ttl)
  | loose c, v => use (LooseCache.put now key v ttl) c
  | gone, _ => (.error (missing "put"), gone)

/-- Drops a key; whether it was there.  Where nothing is kept, the key is not looked at. -/
def invalidate (c : Cache α) (key : CacheKey) : Except Problem Bool × Cache α :=
  match c with
  | idle misses => (.ok false, idle misses)
  | memory m =>
    if m.entries.entries.isEmpty then (.ok false, memory m)
    else withKey m key fun m => m.invalidate key
  | loose c => use (LooseCache.invalidate key) c
  | gone => (.error (missing "invalidate"), gone)

/-- Drops the entries that satisfy a test; how many there were. -/
def invalidateWhere (c : Cache α) (test : CacheKey → α → Except Problem Bool) :
    Except Problem Nat × Cache α :=
  match c with
  | idle misses => (.ok 0, idle misses)
  | memory m =>
    match m.invalidateWhere test with
    | .error p => (.error p, memory m)
    | .ok r => (.ok r.1, memory r.2)
  | loose c => use (LooseCache.invalidateWhere test) c
  | gone => (.error (missing "invalidate_where"), gone)

/-- Drops everything; how many entries there were. -/
def clear (c : Cache α) : Except Problem Nat × Cache α :=
  match c with
  | idle misses => (.ok 0, idle misses)
  | memory m => let r := m.clear; (.ok r.1, memory r.2)
  | loose c => use LooseCache.clear c
  | gone => (.error (missing "clear"), gone)

/-- The counters. -/
def stats (c : Cache α) : Except Problem CacheStats :=
  match c with
  | idle misses => .ok ⟨0, 0, misses, 0, 0.0⟩
  | memory m => .ok m.stats
  | loose c => (use LooseCache.stats c).1
  | gone => .error (missing "stats")

/-- The number of entries; only a cache in memory has one. -/
def size (c : Cache α) : Except Problem Nat :=
  match c with
  | memory m => .ok m.entries.size
  | loose c => (use LooseCache.size c).1
  | c => .error (.noLength c.shapeName)

/-- The entries in order of insertion. -/
def entries (c : Cache α) : List (CacheKey × CacheEntry α) :=
  match c with
  | memory m => m.entries.entries
  | loose c => c.memory.entries.entries
  | _ => []

/-- What stands under a key, whether it has expired or not. -/
def peek? (c : Cache α) (key : CacheKey) : Option α := (c.entries.lookup key).map (·.value)

/-- The value under a key, with the key marked as in flight on a miss. -/
def enter (c : Cache α) (now : Float) (key : CacheKey) : Except Problem (Option α) × Cache α :=
  match c with
  | idle misses => (.ok none, idle (misses + 1))
  | memory m => withKey m key fun m => m.enter now key
  | loose c => use (LooseCache.enter now key) c
  | gone => (.error (missing "get_or_compute"), gone)

/-- Takes the mark of a key in flight away. -/
def leave (c : Cache α) (key : CacheKey) : Except Problem Unit × Cache α :=
  match c with
  | memory m => (.ok (), memory (m.leave key))
  | loose c => use (LooseCache.leave key) c
  | c => (.ok (), c)

/-- Whether a key is in flight. -/
def isInFlight (c : Cache α) (key : CacheKey) : Bool :=
  match c with
  | memory m => m.inFlight.contains key
  | loose c => c.memory.inFlight.contains key
  | _ => false

/-! ### Keys that can be looked up -/

variable {m : MemoryCache CacheKey α} {now : Float} {key : CacheKey}

/-- A lookup in memory. -/
theorem get_memory (h : key.unfit? = none) :
    (memory m).get now key = (.ok (m.get now key).1, memory (m.get now key).2) := by
  simp [get, withKey, h]

/-- A write to memory. -/
theorem put_memory (h : key.unfit? = none) (value : α) (ttl : Option Float) :
    (memory m).put now key (some value) ttl = (.ok (), memory (m.store now key value ttl)) := by
  simp [put, withKey, h]

/-- The first half of a computation in memory. -/
theorem enter_memory (h : key.unfit? = none) :
    (memory m).enter now key = (.ok (m.enter now key).1, memory (m.enter now key).2) := by
  simp [enter, withKey, h]

end Cache

end Gatehouse
