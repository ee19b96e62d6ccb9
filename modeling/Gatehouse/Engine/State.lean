import Gatehouse.Acl.Any
import Gatehouse.Cache.Basic
import Gatehouse.Cache.Key
import Gatehouse.Context.Forest

/-!
# The state of an engine

An engine has a clock, contexts and caches, which several resolvers may share, and the state of the
host that it runs in; and the machine has a clock of its own.  Neither clock is moved by what the
engine does: time goes by while collaborators run, who may leave both clocks as they like.  Main
statement: a cache reads as it was written (`Engine.cache_setCache`).
-/

namespace Gatehouse

/-- What a cache of the engine keeps. -/
inductive Kept where
  /-- A compiled policy. -/
  | policy (p : AnyCompiled)
  /-- The access control list of a secret. -/
  | acl (a : AnyAcl)
  /-- Data of the host. -/
  | data (v : Value)
deriving DecidableEq

namespace Kept

/-- The name of the shape of a kept value. -/
def shapeName : Kept → Text
  | policy _ => "CompiledPolicy"
  | acl _ => "ACL"
  | data v => v.shapeName

/-- The kept access control list, asked for one of its parts. -/
def asAcl (part : Text) : Kept → Except Problem AnyAcl
  | acl a => .ok a
  | k => .error (.lacks k.shapeName part)

/-- The kept compiled policy, asked for one of its parts. -/
def asPolicy (part : Text) : Kept → Except Problem AnyCompiled
  | policy p => .ok p
  | k => .error (.lacks k.shapeName part)

end Kept

/-- A value in a cache of the engine, with its key in the words of those who wrote it: one key may
be written in several ways. -/
structure Deposit where
  /-- The key as the first writer of the entry gave it. -/
  label : CacheKey
  /-- The key as the latest writer of the entry gave it. -/
  key : CacheKey
  /-- The value. -/
  value : Kept
deriving DecidableEq

/-- A cache of the engine.  Its keys are in normal form. -/
abbrev EngineCache := Cache Deposit

/-- The value that a writer puts under a key.  What stands there already passes its label on. -/
def EngineCache.deposit (c : EngineCache) (key : CacheKey) (value : Kept) : Deposit :=
  ⟨((c.peek? key.normal).map (·.label)).getD key, key, value⟩

/-- The number of a cache. -/
abbrev CacheId := Nat

/-- The state of an engine in a host with state `η`. -/
structure Engine (η : Type) where
  /-- The reading of the clock, in seconds. -/
  clock : Float
  /-- The reading of the machine's clock, in seconds. -/
  machine : Float
  /-- The contexts that are held. -/
  contexts : ContextForest
  /-- The contexts of the resolutions under way, innermost first. -/
  running : List ContextId
  /-- The caches. -/
  caches : OrderedMap CacheId EngineCache
  /-- The state of the host. -/
  host : η

namespace Engine

variable {η : Type}

/-- The engine with its clock at zero, without contexts and caches, on a machine that has been
running for long. -/
def start (host : η) : Engine η := ⟨0.0, 1.0e6, .empty, [], ∅, host⟩

/-- The reading of a clock. -/
def reading (s : Engine η) : TimeSource → Float
  | .engine => s.clock
  | .machine => s.machine

/-- The cache of a number. -/
def cache (s : Engine η) (id : CacheId) : EngineCache := (s.caches.find? id).getD default

/-- Changes a cache. -/
def setCache (s : Engine η) (id : CacheId) (c : EngineCache) : Engine η :=
  { s with caches := s.caches.insert id c }

/-- A cache reads as it was written. -/
theorem cache_setCache (s : Engine η) (id id' : CacheId) (c : EngineCache) :
    (s.setCache id c).cache id' = if id' = id then c else s.cache id' := by
  simp only [cache, setCache, OrderedMap.find?_insert]
  split <;> rfl

end Engine

end Gatehouse
