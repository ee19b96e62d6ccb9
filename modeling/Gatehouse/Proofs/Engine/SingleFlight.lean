import Gatehouse.Proofs.Engine.Client

/-!
# Asking with a computation is getting, computing and putting

For a single caller, asking a cache in memory for a value with a computation is looking the key up
and, on a miss, running the computation and writing what it gives (`Client.getThenPut`).  Between the
two there is one difference, the mark of the key in flight.  A computation that uses the cache under
other keys (`Client.Avoids`) does not see it: its run is the same with and without the mark, down to
the engine that it leaves (`Client.run_unmarked`).

Main statement: the two runs give the same and leave the same engine, with the marks that there were
before; on a hit nothing is computed, and on a miss the computation runs once, from the engine that
the lookup leaves, and keeps nothing under the key if it fails or gives no value
(`Client.run_getOrCompute`).
-/

namespace Gatehouse

namespace MemoryCache

variable {κ α : Type} [DecidableEq κ] {k : κ}

/-! ### Marks are seen by computations of their keys only -/

/-- A lookup does not see a mark. -/
theorem get_leave (c : MemoryCache κ α) (k : κ) (now : Float) (key : κ) :
    (c.leave k).get now key = ((c.get now key).1, (c.get now key).2.leave k) := by
  unfold get lookup leave
  rcases c.entries.find? key with _ | e
  · rfl
  · cases he : e.isExpired now <;> simp [he]

/-- Nor does the lookup of another key at the beginning of its computation. -/
theorem enter_leave (c : MemoryCache κ α) {k : κ} (now : Float) {key : κ} (h : key ≠ k) :
    (c.leave k).enter now key = ((c.enter now key).1, (c.enter now key).2.leave k) := by
  rw [enter_eq, enter_eq, get_leave]
  rcases (c.get now key).1 with _ | v
  · simp [leave, h]
  · rfl

/-- Nor does a write. -/
theorem store_leave (c : MemoryCache κ α) (k : κ) (now : Float) (key : κ) (value : α)
    (ttl : Option Float) :
    (c.leave k).store now key value ttl = (c.store now key value ttl).leave k := by
  have hroom : (c.leave k).makeRoom now = (c.makeRoom now).leave k := by
    unfold makeRoom leave
    split
    · rfl
    · dsimp only
      split <;> rfl
  unfold store
  rw [hroom]
  by_cases hkey : c.entries.contains key = true
  · rw [if_pos hkey, if_pos (show (c.leave k).entries.contains key = true from hkey)]
    rfl
  · rw [if_neg hkey, if_neg (show ¬ (c.leave k).entries.contains key = true from hkey)]
    rfl

/-- Marks may be taken away in any order. -/
theorem leave_comm (c : MemoryCache κ α) (k key : κ) : (c.leave k).leave key = (c.leave key).leave k :=
  congrArg (fun marks => { c with inFlight := marks }) (List.erase_comm k key)

end MemoryCache

namespace Cache

variable {α β : Type}

/-- A step on a cache in memory does not see the mark of a key. -/
def Overlooks (k : CacheKey) (f : Cache α → Except Problem β × Cache α) : Prop :=
  ∀ m : MemoryCache CacheKey α, ∃ o m', f (.memory m) = (o, .memory m') ∧
    f (.memory (m.leave k)) = (o, .memory (m'.leave k))

namespace Overlooks

variable {k key : CacheKey}

/-- A step on memory that does not see the mark does not see it either when the key is checked
first. -/
theorem withKey {f : MemoryCache CacheKey α → β × MemoryCache CacheKey α}
    (hf : ∀ m, f (m.leave k) = ((f m).1, (f m).2.leave k)) (m : MemoryCache CacheKey α) :
    ∃ o m', Cache.withKey m key f = (o, .memory m') ∧
      Cache.withKey (m.leave k) key f = (o, .memory (m'.leave k)) := by
  unfold Cache.withKey
  rcases key.unfit? with _ | shape
  · exact ⟨_, _, rfl, by rw [hf]⟩
  · exact ⟨_, m, rfl, rfl⟩

/-- Changing the answer of a step does not make it see the mark. -/
theorem map {γ : Type} {f : Cache α → Except Problem β × Cache α} (h : Overlooks k f) (g : β → γ) :
    Overlooks k fun c => ((f c).1.map g, (f c).2) := by
  intro m
  obtain ⟨o, m', hf, hf'⟩ := h m
  let told : Except Problem β × Cache α → Except Problem γ × Cache α := fun r => (r.1.map g, r.2)
  exact ⟨o.map g, m', congrArg told hf, congrArg told hf'⟩

/-- A lookup does not see the mark. -/
theorem get (now : Float) : Overlooks k fun c : Cache α => c.get now key :=
  withKey fun m => m.get_leave k now key

/-- Beginning a computation does not see the mark of another key. -/
theorem enter (now : Float) (h : key ≠ k) : Overlooks k fun c : Cache α => c.enter now key :=
  withKey fun m => m.enter_leave now h

/-- Ending a computation does not see the mark. -/
theorem leave : Overlooks k fun c : Cache α => c.leave key := by
  intro m
  refine ⟨.ok (), m.leave key, rfl, ?_⟩
  rw [← m.leave_comm k key]
  rfl

/-- A write does not see the mark, if the value does not depend on it. -/
theorem put (now : Float) {value : Cache α → Option α} (ttl : Option Float)
    (hvalue : ∀ m : MemoryCache CacheKey α, value (.memory (m.leave k)) = value (.memory m)) :
    Overlooks k fun c : Cache α => c.put now key (value c) ttl := by
  intro m
  dsimp only
  rw [hvalue]
  rcases value (.memory m) with _ | v
  · exact ⟨_, m, rfl, rfl⟩
  · exact withKey (f := fun m => ((), m.store now key v ttl))
      (fun m => congrArg (Prod.mk ()) (m.store_leave k now key v ttl)) m

/-- A removal does not see the mark. -/
theorem invalidate : Overlooks k fun c : Cache α => c.invalidate key := by
  intro m
  by_cases hempty : m.entries.entries.isEmpty = true
  · exact ⟨.ok false, m, if_pos hempty, if_pos hempty⟩
  · have hstep : ∃ o m', Cache.withKey m key (fun m => m.invalidate key) = (o, .memory m') ∧
        Cache.withKey (m.leave k) key (fun m => m.invalidate key) = (o, .memory (m'.leave k)) :=
      withKey (fun _ => rfl) m
    obtain ⟨o, m', h, h'⟩ := hstep
    exact ⟨o, m', (if_neg hempty).trans h, (if_neg hempty).trans h'⟩

/-- Dropping matching entries does not see the mark. -/
theorem invalidateWhere (test : CacheKey → α → Except Problem Bool) :
    Overlooks k fun c : Cache α => c.invalidateWhere test := by
  intro m
  have hmarked : (m.leave k).invalidateWhere test =
      (m.invalidateWhere test).map fun r => (r.1, r.2.leave k) := by
    have hentries : (m.leave k).entries = m.entries := rfl
    simp only [MemoryCache.invalidateWhere, hentries]
    rcases MemoryCache.matching test m.entries.entries with p | dropped <;> rfl
  simp only [Cache.invalidateWhere, hmarked]
  rcases m.invalidateWhere test with p | r
  · exact ⟨_, m, rfl, rfl⟩
  · exact ⟨_, r.2, rfl, rfl⟩

/-- Emptying a cache does not see the mark. -/
theorem clear : Overlooks k (Cache.clear (α := α)) := fun m => ⟨_, m.clear.2, rfl, rfl⟩

end Overlooks

end Cache

namespace Engine

variable {η α β : Type} {id id' : CacheId} {key : CacheKey} {s t : Engine η}
  {m : MemoryCache CacheKey Deposit}

/-- The engine without the mark of a key. -/
def unmarked (s : Engine η) (id : CacheId) (key : CacheKey) : Engine η :=
  s.setCache id ((s.cache id).leave key.normal).2

/-- Where the cache is in memory, the mark is taken away there. -/
theorem unmarked_of_cache (hs : s.cache id = .memory m) :
    s.unmarked id key = s.setCache id (.memory (m.leave key.normal)) := by
  rw [unmarked, hs]
  rfl

/-- **A step on a cache does not see the mark of a key,** if the step of that cache does not. -/
theorem onCache_unmarked (hs : s.cache id = .memory m)
    {f : EngineCache → Except Problem β × EngineCache}
    (hf : id' = id → Cache.Overlooks key.normal f) : onCache id' f (s.unmarked id key) =
      ((onCache id' f s).1, (onCache id' f s).2.unmarked id key) := by
  rw [unmarked_of_cache hs]
  by_cases hid : id' = id
  · subst hid
    obtain ⟨o, m', h, h'⟩ := hf rfl m
    simp only [onCache, hs, cache_setCache_self, h, h']
    rw [unmarked_of_cache (cache_setCache_self _ _ _), setCache_setCache, setCache_setCache]
  · have hcache : (s.setCache id (.memory (m.leave key.normal))).cache id' = s.cache id' :=
      cache_setCache_of_ne _ _ hid
    have hkept : (s.setCache id' (f (s.cache id')).2).cache id = .memory m :=
      (cache_setCache_of_ne _ _ (Ne.symm hid)).trans hs
    simp only [onCache, hcache]
    rw [unmarked_of_cache hkept, setCache_comm hs (Ne.symm hid)]

end Engine

namespace Client

variable {η α : Type} {id id' : CacheId} {key key' : CacheKey} {s t : Engine η}
  {m : MemoryCache CacheKey Deposit}

/-- A run of a client does not use a key of a cache, nor do the computations that run in it; be it
that it calls other caches, or that cache with other keys. -/
def Avoids (id : CacheId) (key : CacheKey) {α : Type} : Client η α → Engine η → Prop
  | apart _ _, _ => True
  | andThen x f, s => x.Avoids id key s ∧ ∀ a t, x.run s = (.ok a, t) → (f a).Avoids id key t
  | attempt x, s => x.Avoids id key s
  | get id' key', _ => id' = id → key'.normal ≠ key.normal
  | put id' key' _ _, _ => id' = id → key'.normal ≠ key.normal
  | getOrCompute id' key' compute _, s => (id' = id → key'.normal ≠ key.normal) ∧
      ∀ entered, Engine.onCache id' (fun c => c.enter s.clock key'.normal) s = (.ok none, entered) →
        compute.Avoids id key entered
  | invalidate id' key', _ => id' = id → key'.normal ≠ key.normal
  | invalidateWhere _ _, _ => True
  | clear _, _ => True
  | stats _, _ => True

/-- A write does the same without the mark. -/
theorem cachePut_unmarked (hs : s.cache id = .memory m) (id' : CacheId) (key' : CacheKey)
    (value : Option Kept) (ttl : Option Float) :
    Engine.cachePut id' key' value ttl (s.unmarked id key) =
      ((Engine.cachePut id' key' value ttl s).1,
        (Engine.cachePut id' key' value ttl s).2.unmarked id key) :=
  Engine.onCache_unmarked hs fun _ => .put s.clock ttl fun _ => rfl

/-- A computation that does not see the mark of a key may be followed by a write. -/
theorem computeAndPut_unmarked {compute : Action η (Option Kept)}
    (hs : (compute s).2.cache id = .memory m)
    (h : compute (s.unmarked id key) = ((compute s).1, (compute s).2.unmarked id key))
    (id' : CacheId) (key' : CacheKey) (ttl : Option Float) :
    Engine.computeAndPut id' key' compute ttl (s.unmarked id key) =
      ((Engine.computeAndPut id' key' compute ttl s).1,
        (Engine.computeAndPut id' key' compute ttl s).2.unmarked id key) := by
  unfold Engine.computeAndPut
  rcases hr : compute s with ⟨e | v, t⟩ <;> rw [hr] at h hs
  · rw [Action.bind_of_error h, Action.bind_of_error hr]
  · rw [Action.bind_of_ok h, Action.bind_of_ok hr, bind_pure_comp, Action.map_apply,
      Action.map_apply, cachePut_unmarked hs]

/-- **A run that does not use a key does not see its mark.** -/
theorem run_unmarked (x : Client η α) (hs : s.cache id = .memory m) (h : x.Avoids id key s) :
    x.run (s.unmarked id key) = ((x.run s).1, (x.run s).2.unmarked id key) := by
  induction x generalizing s m with
  | apart x hx =>
    refine (hx s (s.unmarked id key).caches).trans (congrArg (Prod.mk _) ?_)
    simp only [run, Engine.unmarked, Engine.setCache, hx.cache, hx.caches]
  | andThen x f ihx ihf =>
    obtain ⟨hx, hf⟩ := h
    have hfirst := ihx hs hx
    have hcache := x.cache_run id hs
    rw [run]
    rcases hr : x.run s with ⟨e | a, t⟩ <;> rw [hr] at hfirst hcache
    · rw [Action.bind_of_error hfirst, Action.bind_of_error hr]
    · rw [Action.bind_of_ok hfirst, Action.bind_of_ok hr]
      exact ihf a hcache (hf a t hr)
  | attempt x ih =>
    rw [run]
    dsimp only
    rw [ih hs h]
  | get id' key' => exact Engine.onCache_unmarked hs fun _ => (Cache.Overlooks.get s.clock).map _
  | put id' key' value ttl => exact cachePut_unmarked hs id' key' value ttl
  | getOrCompute id' key' compute ttl ih =>
    obtain ⟨hother, hcompute⟩ := h
    have henter := Engine.onCache_unmarked (f := fun c => c.enter s.clock key'.normal) hs
      fun hid => Cache.Overlooks.enter s.clock (hother hid)
    have hentered := cache_enter hs id' key'
    have hflight : ((s.unmarked id key).cache id').isInFlight key'.normal =
        (s.cache id').isInFlight key'.normal := by
      rw [Engine.unmarked_of_cache hs, Engine.cache_setCache]
      split
      · next hid =>
        rw [hid, hs]
        simp [Cache.isInFlight, MemoryCache.leave, List.mem_erase_of_ne (hother hid)]
      · rfl
    have hclock : (s.unmarked id key).clock = s.clock := rfl
    simp only [run, Engine.cacheGetOrCompute, hclock, henter, hflight]
    rcases hr : Engine.onCache id' (fun c => c.enter s.clock key'.normal) s with ⟨e | _ | d, entered⟩
    · rfl
    · rw [hr] at hentered
      dsimp only
      split
      · rfl
      · -- the mark is not seen by the computation, by the write and by the end of it
        have hcomputed := ih hentered (hcompute entered hr)
        have hkept := computeAndPut_unmarked (compute.cache_run id hentered) hcomputed id' key' ttl
        have hcache := cache_computeAndPut (compute.cache_run id hentered) id' key' ttl
        rw [hkept, Engine.onCache_unmarked hcache fun _ => .leave]
    · rfl
  | invalidate id' key' => exact Engine.onCache_unmarked hs fun _ => .invalidate
  | invalidateWhere id' test => exact Engine.onCache_unmarked hs fun _ => .invalidateWhere _
  | clear id' => exact Engine.onCache_unmarked hs fun _ => .clear
  | stats id' =>
    have hstats : ((s.unmarked id key).cache id').stats = (s.cache id').stats := by
      rw [Engine.unmarked_of_cache hs, Engine.cache_setCache]
      split
      · next hid => rw [hid, hs]; rfl
      · rfl
    simp only [run, Engine.cacheStats, hstats]
    rcases (s.cache id').stats with p | counters <;> rfl

/-! ### What is written under a key -/

/-- A call that does not write the key does not write it in this cache. -/
theorem not_writes_called {accepted : Bool} {act : CacheAct CacheKey Deposit}
    (h : id' = id → ¬ act.Writes key.normal) :
    ∀ act' ∈ called id id' accepted act, ¬ act'.Writes key.normal := by
  unfold called
  split
  · next hcalled => exact List.forall_mem_singleton.2 (h hcalled.1)
  · exact List.forall_mem_nil _

/-- A write under another key, or in another cache, does not write the key in this one. -/
theorem not_writes_written (h : id' = id → key'.normal ≠ key.normal) (value : Option Kept)
    (ttl : Option Float) (s : Engine η) :
    ∀ act ∈ written id id' key' value ttl s, ¬ act.Writes key.normal := by
  cases value with
  | none => exact List.forall_mem_nil _
  | some v => exact not_writes_called h

/-- **A run that does not use a key writes nothing under it.** -/
theorem not_writes_acts (x : Client η α) (h : x.Avoids id key s) :
    ∀ act ∈ x.acts id s, ¬ act.Writes key.normal := by
  induction x generalizing s with
  | apart x hx => exact List.forall_mem_nil _
  | andThen x f ihx ihf =>
    obtain ⟨hx, hf⟩ := h
    rw [acts]
    rcases hr : x.run s with ⟨e | a, t⟩
    · exact ihx hx
    · exact List.forall_mem_append.2 ⟨ihf a (hf a t hr), ihx hx⟩
  | attempt x ih => exact ih h
  | put id' key' value ttl => exact not_writes_written h value ttl s
  | getOrCompute id' key' compute ttl ih =>
    obtain ⟨hother, hcompute⟩ := h
    have hentering : ∀ act ∈ calledWith id id' key' (.enter s.clock key'.normal),
        ¬ act.Writes key.normal := not_writes_called fun _ => not_false
    rw [acts]
    rcases hr : Engine.onCache id' (fun c => c.enter s.clock key'.normal) s with
      ⟨e | _ | d, entered⟩
    · exact hentering
    · dsimp only
      split
      · exact List.forall_mem_nil _
      · have hkeeping : ∀ act ∈ keeping id id' key' ttl (compute.run entered),
            ¬ act.Writes key.normal := by
          rcases compute.run entered with ⟨e | v, t⟩
          · exact List.forall_mem_nil _
          · exact not_writes_written hother v ttl t
        have hleaving : ∀ act ∈ called id id' true (.leave key'.normal), ¬ act.Writes key.normal :=
          not_writes_called fun _ => not_false
        simp only [List.forall_mem_append]
        exact ⟨⟨⟨hleaving, hkeeping⟩, ih (hcompute entered hr)⟩, hentering⟩
    · exact hentering
  | stats id' => exact List.forall_mem_nil _
  | _ => exact not_writes_called fun _ => not_false

/-! ### With and without a mark -/

/-- Gets the value under a key, or else computes and puts it. -/
def getThenPut (id : CacheId) (key : CacheKey) (compute : Client η (Option Kept))
    (ttl : Option Float) : Client η (Option Kept) :=
  .andThen (.get id key) fun
    | some v => done (some v)
    | none => .andThen compute fun v => .andThen (.put id key v ttl) fun _ => done v

end Client

namespace Engine

variable {η : Type} {id : CacheId} {key : CacheKey} {s : Engine η} {m : MemoryCache CacheKey Deposit}

/-- The engine after a key was looked up. -/
def got (s : Engine η) (id : CacheId) (key : CacheKey) (m : MemoryCache CacheKey Deposit) : Engine η :=
  s.setCache id (.memory (m.get s.clock key.normal).2)

/-- A lookup in memory gives the value that is found, and leaves its trace. -/
theorem cacheGet_memory (hs : s.cache id = .memory m) (hkey : key.normal.unfit? = none) :
    cacheGet id key s =
      (.ok ((m.get s.clock key.normal).1.map Deposit.value), s.got id key m) := by
  refine onCache_of_eq_ok ?_
  rw [hs, Cache.get_memory hkey]
  rfl

/-- Where a key is found, it is only looked up. -/
theorem entered_of_hit {d : Deposit} (hhit : (m.get s.clock key.normal).1 = some d) :
    s.entered id key m = s.got id key m := by
  have henter : (m.enter s.clock key.normal).2 = (m.get s.clock key.normal).2 := by
    rw [MemoryCache.enter_eq, hhit, m.snd_get_eq]
    rfl
  exact congrArg (fun c => s.setCache id (.memory c)) henter

/-- Where a key is missed, it is looked up and marked. -/
theorem unmarked_entered (hmiss : (m.get s.clock key.normal).1 = none) :
    (s.entered id key m).unmarked id key = s.got id key m := by
  have hleave : (m.enter s.clock key.normal).2.leave key.normal = (m.get s.clock key.normal).2 := by
    rw [MemoryCache.enter_eq, hmiss, m.snd_get_eq]
    simp [MemoryCache.leave]
  rw [entered, unmarked_of_cache (cache_setCache_self _ _ _), setCache_setCache, got, ← hleave]
  rfl

/-- Ending a computation is taking the mark away. -/
theorem onCache_leave_eq (hs : s.cache id = .memory m) :
    onCache id (fun c => c.leave key.normal) s = (.ok (), s.unmarked id key) := by
  rw [onCache_leave hs, unmarked_of_cache hs]
  rfl

end Engine

namespace Client

variable {η : Type} {id : CacheId} {key : CacheKey} {s : Engine η}
  {m : MemoryCache CacheKey Deposit} {compute : Client η (Option Kept)} {ttl : Option Float}

/-- On a miss, what is computed is put, as if there were no mark. -/
theorem run_getOrCompute_of_miss (hs : s.cache id = .memory m) (hkey : key.normal.unfit? = none)
    (hmiss : (m.get s.clock key.normal).1 = none) (hfree : key.normal ∉ m.inFlight)
    (hother : compute.Avoids id key (s.entered id key m)) :
    (getOrCompute id key compute ttl).run s =
      Engine.computeAndPut id key compute.run ttl (s.got id key m) := by
  have hentered : (s.entered id key m).cache id = .memory (m.after [.enter s.clock key.normal]) :=
    Engine.cache_setCache_self _ _ _
  have hcomputed := compute.cache_run id hentered
  have hkept := computeAndPut_unmarked hcomputed (compute.run_unmarked hentered hother) id key ttl
  have hcache := cache_computeAndPut hcomputed id key ttl
  rw [run, Engine.cacheGetOrCompute_of_miss hs hkey hmiss hfree]
  dsimp only
  rw [Engine.onCache_leave_eq hcache, ← Engine.unmarked_entered hmiss, hkept]
  rfl

/-- Asking with a computation and getting, computing and putting come to the same. -/
theorem run_getOrCompute_eq (hs : s.cache id = .memory m) (hfree : key.normal ∉ m.inFlight)
    (hother : (m.get s.clock key.normal).1 = none → compute.Avoids id key (s.entered id key m)) :
    (getOrCompute id key compute ttl).run s = (getThenPut id key compute ttl).run s := by
  rcases hkey : key.normal.unfit? with _ | shape
  · have hget := Engine.cacheGet_memory hs hkey
    rcases hfound : (m.get s.clock key.normal).1 with _ | d <;> rw [hfound] at hget
    · have hmiss : (get id key).run s = (.ok none, s.got id key m) := hget
      rw [run_getOrCompute_of_miss hs hkey hfound hfree (hother hfound), getThenPut, run,
        Action.bind_of_ok hmiss]
      rfl
    · have hhit : (get id key).run s = (.ok (some d.value), s.got id key m) := hget
      rw [run, Engine.cacheGetOrCompute_of_hit hs hkey hfound, Engine.entered_of_hit hfound,
        getThenPut, run, Action.bind_of_ok hhit]
      rfl
  · have hrefused : ∀ (β : Type) (f : MemoryCache CacheKey Deposit → β × MemoryCache CacheKey Deposit),
        Cache.withKey m key.normal f = (.error (.unfitForKey shape), .memory m) := by
      intro β f
      rw [Cache.withKey, hkey]
    have henter : Engine.onCache id (fun c => c.enter s.clock key.normal) s =
        (.error (.ofProblem (.unfitForKey shape)), s.setCache id (.memory m)) := by
      rw [Engine.onCache, hs, Cache.enter, hrefused]
      rfl
    have hget : (get id key).run s =
        (.error (.ofProblem (.unfitForKey shape)), s.setCache id (.memory m)) := by
      rw [run, Engine.cacheGet, Engine.onCache, hs, Cache.get, hrefused]
      rfl
    rw [run, Engine.cacheGetOrCompute, henter, getThenPut, run, Action.bind_of_error hget]

/-- No key is in flight when a client of a fresh cache is done with it. -/
theorem exists_not_mem_inFlight_run {β : Type} (x : Client η β) {defaultTtl : Option Float}
    {capacity : Nat} (hs : s.cache id = .memory (.create defaultTtl capacity)) :
    ∃ m, (x.run s).2.cache id = .memory m ∧ ∀ k, k ∉ m.inFlight := by
  refine ⟨_, x.cache_run id hs, fun k => ?_⟩
  rw [x.inFlight_after_acts id hs]
  exact List.not_mem_nil

/-- A computation that does not use the key of a miss leaves nothing under it. -/
theorem find?_of_miss (hmiss : (m.get s.clock key.normal).1 = none)
    (hother : compute.Avoids id key (s.entered id key m)) :
    ∃ c, (compute.run (s.got id key m)).2.cache id = .memory c ∧
      c.entries.find? key.normal = none := by
  have hentered : (s.entered id key m).cache id = .memory (m.after [.enter s.clock key.normal]) :=
    Engine.cache_setCache_self _ _ _
  have hnone : (m.after [.enter s.clock key.normal]).entries.find? key.normal = none :=
    (congrArg (fun entries => entries.find? key.normal) (m.entries_enter s.clock key.normal)).trans
      (MemoryCache.find?_get_of_miss hmiss)
  rw [← Engine.unmarked_entered hmiss, compute.run_unmarked hentered hother,
    Engine.unmarked_of_cache (compute.cache_run id hentered)]
  exact ⟨_, Engine.cache_setCache_self _ _ _,
    MemoryCache.find?_after_of_none hnone (compute.not_writes_acts hother)⟩

/-- **Asking with a computation is getting, computing and putting.**  For a cache in memory in any
state, a key that is not in flight, any lifetime, and a computation that uses the cache under other
keys,
* no key is in flight when a client of a fresh cache is done with it;
* the result or the failure is that of getting the value, or else computing and putting it, and so is
  the whole engine that is left, with every entry in its place;
* the marks of keys in flight are afterwards what they were before;
* on a hit one hit is counted, and nothing is computed;
* on a miss one miss is counted, and the computation runs once, from the engine that the lookup left.
  There is nothing under the key when it ends.  If it fails, its failure is the result, and if it
  gives no value, there is none to be kept: nothing else is left than what it left itself.  Otherwise
  its value is written under the key. -/
theorem run_getOrCompute (hs : s.cache id = .memory m) (hfree : key.normal ∉ m.inFlight)
    (hother : (m.get s.clock key.normal).1 = none → compute.Avoids id key (s.entered id key m)) :
    (∀ (β : Type) (x : Client η β) (t : Engine η) (defaultTtl : Option Float) (capacity : Nat),
      t.cache id = .memory (.create defaultTtl capacity) →
      ∃ m', (x.run t).2.cache id = .memory m' ∧ ∀ k, k ∉ m'.inFlight) ∧
    (getOrCompute id key compute ttl).run s = (getThenPut id key compute ttl).run s ∧
    (∃ m', ((getOrCompute id key compute ttl).run s).2.cache id = .memory m' ∧
      m'.inFlight = m.inFlight) ∧
    (key.normal.unfit? = none →
      (∀ d, (m.get s.clock key.normal).1 = some d →
        (m.get s.clock key.normal).2.hits = m.hits + 1 ∧
        (m.get s.clock key.normal).2.misses = m.misses ∧
        (getOrCompute id key compute ttl).run s = (.ok (some d.value), s.got id key m)) ∧
      ((m.get s.clock key.normal).1 = none →
        (m.get s.clock key.normal).2.hits = m.hits ∧
        (m.get s.clock key.normal).2.misses = m.misses + 1 ∧
        let computed := compute.run (s.got id key m)
        (∃ c, computed.2.cache id = .memory c ∧ c.entries.find? key.normal = none) ∧
        (getOrCompute id key compute ttl).run s =
          match computed.1 with
          | .error e => (.error e, computed.2)
          | .ok none => (.error (.ofProblem .nothingToKeep), computed.2)
          | .ok (some v) => (.ok (some v), (Engine.cachePut id key (some v) ttl computed.2).2))) := by
  have hcounted := m.counted_get s.clock key.normal
  refine ⟨fun β x t defaultTtl capacity ht => exists_not_mem_inFlight_run x ht,
    run_getOrCompute_eq hs hfree hother, ⟨_, cache_run _ id hs, inFlight_after_acts _ id hs⟩,
    fun hkey => ⟨fun d hhit => ?_, fun hmiss => ?_⟩⟩
  · rw [hhit] at hcounted
    refine ⟨hcounted.1, hcounted.2, ?_⟩
    rw [run, Engine.cacheGetOrCompute_of_hit hs hkey hhit, Engine.entered_of_hit hhit]
  · rw [hmiss] at hcounted
    refine ⟨hcounted.1, hcounted.2, ?_⟩
    intro computed
    obtain ⟨c, hc, hnone⟩ := find?_of_miss hmiss (hother hmiss)
    refine ⟨⟨c, hc, hnone⟩, ?_⟩
    rw [run_getOrCompute_of_miss hs hkey hmiss hfree (hother hmiss)]
    exact Engine.computeAndPut_eq hc hkey ttl

/-- Writing a book takes two seconds, notes on a slip, and a list that is looked up or else written. -/
def writeBook : Client Unit (Option Kept) :=
  .andThen (wait 2.0) fun _ =>
  .andThen (.put 0 (.text "slip") (some (.data (.int 1))) none) fun _ =>
  .andThen (.getOrCompute 0 (.text "list") (done (some (.data (.int 2)))) none) fun _ =>
  done (some (.data (.int 3)))

/-- An engine with a shelf for three things. -/
def shelf : Engine Unit := (Engine.start ()).setCache 0 (.memory (.create none 3))

/-- A book that is asked for is written and put on the shelf as if it had been looked for first, and
is not marked any more. -/
theorem run_getOrCompute_shelf :
    (getOrCompute 0 (.text "book") writeBook (some 5.0)).run shelf =
      (getThenPut 0 (.text "book") writeBook (some 5.0)).run shelf ∧
    (∃ m, ((getOrCompute 0 (.text "book") writeBook (some 5.0)).run shelf).2.cache 0 = .memory m ∧
      m.inFlight = []) ∧
    ((getOrCompute 0 (.text "book") writeBook (some 5.0)).run shelf).1 =
      .ok (some (.data (.int 3))) := by
  have hs : shelf.cache 0 = .memory (.create none 3) := Engine.cache_setCache_self _ 0 _
  have hfree : CacheKey.normal (.text "book") ∉ (MemoryCache.create (α := Deposit) none 3).inFlight :=
    List.not_mem_nil
  have hother : ∀ s, writeBook.Avoids 0 (.text "book") s := by
    intro s
    refine ⟨trivial, fun _ _ _ => ⟨fun _ => by decide, fun _ _ _ => ⟨⟨fun _ => by decide, ?_⟩, ?_⟩⟩⟩
    · exact fun _ _ => trivial
    · exact fun _ _ _ => trivial
  obtain ⟨-, heq, hmarks, hspec⟩ := @run_getOrCompute _ _ _ _ _ _ (some 5.0) hs hfree fun _ => hother _
  obtain ⟨-, hmiss⟩ := hspec rfl
  obtain ⟨-, -, -, hrun⟩ := hmiss rfl
  exact ⟨heq, hmarks, by rw [hrun]; rfl⟩

end Client

end Gatehouse
