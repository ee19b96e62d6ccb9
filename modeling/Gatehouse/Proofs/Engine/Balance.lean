import Gatehouse.Proofs.Cache.Balance
import Gatehouse.Proofs.Engine.Client

/-!
# The books of a cache balance, whoever uses it

After every run of a client on a fresh cache in memory, what the cache has counted and keeps agrees
with what the calls of the client, and of its computations, came to.  Main statement:
`Client.run_balances`.
-/

namespace Gatehouse

namespace Client

variable {η α : Type} {id : CacheId} {key : CacheKey} {s : Engine η}
  {m : MemoryCache CacheKey Deposit}

/-- A computation that fails, or gives no value, writes nothing: between the lookup of its key and its
end there is only what its own calls do. -/
theorem acts_getOrCompute_of_error (hs : s.cache id = .memory m) (hkey : key.normal.unfit? = none)
    (hmiss : (m.get s.clock key.normal).1 = none) (hfree : key.normal ∉ m.inFlight)
    {compute : Client η (Option Kept)} {ttl : Option Float}
    (hnone : ∀ v, (compute.run (s.entered id key m)).1 ≠ .ok (some v)) :
    (getOrCompute id key compute ttl).acts id s = .leave key.normal ::
      (compute.acts id (s.entered id key m) ++ [.enter s.clock key.normal]) := by
  have hflight : (s.cache id).isInFlight key.normal = false := by
    simpa [hs, Cache.isInFlight] using hfree
  have hkeeping : keeping id id key ttl (compute.run (s.entered id key m)) = [] := by
    rcases hr : compute.run (s.entered id key m) with ⟨e | _ | v, t⟩
    · rfl
    · rfl
    · exact absurd (congrArg Prod.fst hr) (hnone v)
  rw [acts, Engine.onCache_enter hs hkey, MemoryCache.fst_enter, hmiss]
  dsimp only
  rw [if_neg (by rw [hflight]; exact Bool.false_ne_true), hkeeping, calledWith, called, called, hkey,
    if_pos ⟨rfl, rfl⟩, if_pos ⟨rfl, rfl⟩]
  rfl

/-- **The books of a cache balance.**  After every run of a client on a fresh cache in memory,
* the hits and misses are the lookups, with and without a computation, be it one that fails;
* the values written under keys that were absent are the entries there are, with those evicted, those
  that a lookup dropped as they had expired, and those that were reported as removed;
* an act that looks a key up, writes a key that is present, or ends a computation adds nothing,
  removes nothing and evicts nothing, and the only entry that it may drop is an expired one that it
  looks up;
* and a computation that fails, or gives no value, comes to such acts and those of its own calls. -/
theorem run_balances (x : Client η α) {s : Engine η} {id : CacheId} {defaultTtl : Option Float}
    {capacity : Nat} (hcapacity : 0 < capacity)
    (hs : s.cache id = .memory (.create defaultTtl capacity)) :
    let fresh : MemoryCache CacheKey Deposit := .create defaultTtl capacity
    let acts := x.acts id s
    ∃ m, (x.run s).2.cache id = .memory m ∧
      m.hits + m.misses = acts.countP CacheAct.isLookup ∧
      fresh.total CacheAct.added acts = m.entries.size + m.evictions +
        fresh.total CacheAct.lapsed acts + fresh.total CacheAct.removed acts ∧
      (∀ later act earlier, acts = later ++ act :: earlier → act.IsQuiet (fresh.after earlier) →
        act.added (fresh.after earlier) = 0 ∧ act.removed (fresh.after earlier) = 0 ∧
        (act.run (fresh.after earlier)).evictions = (fresh.after earlier).evictions ∧
        (act.run (fresh.after earlier)).entries.size + act.lapsed (fresh.after earlier) =
          (fresh.after earlier).entries.size) ∧
      ∀ (t : Engine η) (c : MemoryCache CacheKey Deposit) (key : CacheKey)
        (compute : Client η (Option Kept)) (ttl : Option Float), t.cache id = .memory c →
        key.normal.unfit? = none → (c.get t.clock key.normal).1 = none → key.normal ∉ c.inFlight →
        (∀ v, (compute.run (t.entered id key c)).1 ≠ .ok (some v)) →
        (getOrCompute id key compute ttl).acts id t = .leave key.normal ::
          (compute.acts id (t.entered id key c) ++ [.enter t.clock key.normal]) := by
  intro fresh acts
  have hlookups := fresh.lookups_after acts
  have hentries := MemoryCache.entries_after (c := fresh) hcapacity acts
  refine ⟨fresh.after acts, x.cache_run id hs, ?_, ?_, fun _ act earlier _ hquiet => hquiet.counts,
    fun t c key compute ttl ht hkey hmiss hfree hnone =>
      acts_getOrCompute_of_error ht hkey hmiss hfree hnone⟩
  · exact hlookups.trans (Nat.zero_add _)
  · exact (Nat.zero_add _).symm.trans hentries.symm

/-- A computation that fails. -/
def broken : Client η (Option Kept) := apart (.problem .nothingToKeep) fun _ _ => rfl

/-- A day at a desk with room for one card: a second card takes the place of the first one, a search
for a third one fails, and nine seconds later the second one has lapsed.  A search for a fourth one
looks a fifth one up, which is not there, and what it finds is given back in the end. -/
def deskDay : Client Unit Bool :=
  .andThen (.put 0 (.text "first") (some (.data (.int 1))) none) fun _ =>
  .andThen (.put 0 (.text "second") (some (.data (.int 2))) (some 5.0)) fun _ =>
  .andThen (.attempt (.getOrCompute 0 (.text "third") broken none)) fun _ =>
  .andThen (wait 9.0) fun _ =>
  .andThen (.get 0 (.text "second")) fun _ =>
  .andThen (.getOrCompute 0 (.text "fourth") (.andThen (.get 0 (.text "fifth")) fun _ =>
    done (some (.data (.int 4)))) none) fun _ =>
  .invalidate 0 (.text "fourth")

/-- An engine with a desk. -/
def desk : Engine Unit := (Engine.start ()).setCache 0 (.memory (.create none 1))

/-- There is one empty cache on the desk, with room for one entry. -/
theorem cache_desk : desk.cache 0 = .memory (.create none 1) := Engine.cache_setCache_self _ 0 _

/-- Of the four lookups of the day none found a card, and of the three cards that came in, one was
evicted, one had lapsed and one was given back. -/
theorem run_balances_desk : ∃ m, (deskDay.run desk).2.cache 0 = .memory m ∧
    m.hits + m.misses = 4 ∧ 3 = m.entries.size + m.evictions + 1 + 1 := by
  obtain ⟨m, hm, hlookups, hentries, -⟩ := deskDay.run_balances (by decide : 0 < 1) cache_desk
  have hcounted : (deskDay.acts 0 desk).countP CacheAct.isLookup = 4 := by decide +kernel
  have hadded : (MemoryCache.create none 1).total CacheAct.added (deskDay.acts 0 desk) = 3 := by
    decide +kernel
  have hlapsed : (MemoryCache.create none 1).total CacheAct.lapsed (deskDay.acts 0 desk) = 1 := by
    decide +kernel
  have hremoved : (MemoryCache.create none 1).total CacheAct.removed (deskDay.acts 0 desk) = 1 := by
    decide +kernel
  rw [hadded, hlapsed, hremoved] at hentries
  exact ⟨m, hm, hlookups.trans hcounted, hentries⟩

end Client

end Gatehouse
