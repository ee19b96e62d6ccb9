import Gatehouse.Proofs.Cache.Forgetting
import Gatehouse.Proofs.Engine.Rules

/-!
# What an engine does to a cache in memory

Each step of an engine on a cache in memory is an act on it, by the reading of the engine's clock.
A value that is asked for with a computation is entered; if it is there, that is all.  On a miss the
computation runs, its value is written, if it has one, and the computation ends
(`Engine.cacheGetOrCompute_of_hit`, `Engine.cacheGetOrCompute_of_value`,
`Engine.cacheGetOrCompute_of_error`).  So whatever an engine does to its caches, in whatever order
and however its computations use them in their turn, is a history of each cache in memory
(`Action.GoesByActs`), and a lookup answers as it does after any history (`Engine.cacheGet_of_acts`).
-/

namespace Gatehouse

namespace Cache

variable {α : Type}

/-- A step that looks a key up is made if the key can be looked up. -/
theorem snd_withKey_eq {β : Type} (m : MemoryCache CacheKey α) (key : CacheKey)
    (f : MemoryCache CacheKey α → β × MemoryCache CacheKey α) :
    (withKey m key f).2 = memory (if key.unfit?.isNone then (f m).2 else m) := by
  unfold withKey
  rcases key.unfit? with _ | shape <;> rfl

/-- Removing a key from memory is an act, unless the key cannot be looked up. -/
theorem snd_invalidate_memory (m : MemoryCache CacheKey α) (key : CacheKey) :
    ((memory m).invalidate key).2 =
      memory (if key.unfit?.isNone then (CacheAct.invalidate key).run m else m) := by
  rcases m with ⟨defaultTtl, capacity, ⟨_ | ⟨e, rest⟩, hkeys⟩, inFlight, hits, misses, evictions⟩
  · cases key.unfit?.isNone <;> rfl
  · exact snd_withKey_eq _ key fun m => m.invalidate key

/-- Dropping matching entries from memory is an act. -/
theorem snd_invalidateWhere_memory (m : MemoryCache CacheKey α)
    (test : CacheKey → α → Except Problem Bool) : ((memory m).invalidateWhere test).2 =
      memory ((CacheAct.invalidateWhere test).run m) := by
  simp only [Cache.invalidateWhere, CacheAct.run]
  rcases m.invalidateWhere test with p | r <;> rfl

/-- If the first cache is in memory, the second one is left of it by some acts. -/
def GoesByActs (c c' : Cache α) : Prop :=
  ∀ m, c = memory m → ∃ acts, c' = memory (m.after acts)

namespace GoesByActs

variable {c c' c'' : Cache α}

/-- Doing nothing goes by acts. -/
theorem refl (c : Cache α) : c.GoesByActs c := fun _ hm => ⟨[], hm⟩

/-- What goes by acts twice goes by acts. -/
theorem trans (h : c.GoesByActs c') (h' : c'.GoesByActs c'') : c.GoesByActs c'' := by
  intro m hm
  obtain ⟨earlier, hearlier⟩ := h m hm
  obtain ⟨later, hlater⟩ := h' _ hearlier
  exact ⟨later ++ earlier, by rw [hlater, MemoryCache.after_append]⟩

/-- A step that is one act, if it is accepted. -/
theorem of_act (act : CacheAct CacheKey α) (accepted : Bool)
    (h : ∀ m, c = memory m → c' = memory (if accepted then act.run m else m)) :
    c.GoesByActs c' := by
  intro m hm
  cases accepted
  · exact ⟨[], h m hm⟩
  · exact ⟨[act], h m hm⟩

/-- A lookup goes by acts. -/
theorem get (c : Cache α) (now : Float) (key : CacheKey) : c.GoesByActs (c.get now key).2 :=
  of_act (.get now key) _ (by rintro m rfl; exact snd_withKey_eq m key _)

/-- Beginning a computation goes by acts. -/
theorem enter (c : Cache α) (now : Float) (key : CacheKey) : c.GoesByActs (c.enter now key).2 :=
  of_act (.enter now key) _ (by rintro m rfl; exact snd_withKey_eq m key _)

/-- Ending a computation goes by acts. -/
theorem leave (c : Cache α) (key : CacheKey) : c.GoesByActs (c.leave key).2 :=
  of_act (.leave key) true (by rintro m rfl; rfl)

/-- A write goes by acts. -/
theorem put (c : Cache α) (now : Float) (key : CacheKey) (value : Option α) (ttl : Option Float) :
    c.GoesByActs (c.put now key value ttl).2 := by
  cases value with
  | none =>
    rintro m rfl
    exact ⟨[], rfl⟩
  | some v =>
    exact of_act (.put now now key v ttl) _ (by rintro m rfl; exact snd_withKey_eq m key _)

/-- A removal goes by acts. -/
theorem invalidate (c : Cache α) (key : CacheKey) : c.GoesByActs (c.invalidate key).2 :=
  of_act (.invalidate key) _ (by rintro m rfl; exact snd_invalidate_memory m key)

/-- Dropping matching entries goes by acts. -/
theorem invalidateWhere (c : Cache α) (test : CacheKey → α → Except Problem Bool) :
    c.GoesByActs (c.invalidateWhere test).2 :=
  of_act (.invalidateWhere test) true (by rintro m rfl; exact snd_invalidateWhere_memory m test)

/-- Emptying a cache goes by acts. -/
theorem clear (c : Cache α) : c.GoesByActs c.clear.2 :=
  of_act .clear true (by rintro m rfl; rfl)

end GoesByActs

end Cache

variable {η α β : Type}

/-- **An action goes by acts on the caches:** whatever it does to one in memory is a history of it. -/
def Action.GoesByActs (x : Action η α) : Prop :=
  ∀ (s : Engine η) (id : CacheId), (s.cache id).GoesByActs ((x s).2.cache id)

namespace Action.GoesByActs

variable {x : Action η α} {f : α → Action η β} {id : CacheId} {key : CacheKey}

/-- An action that leaves the caches alone. -/
theorem of_cache (h : ∀ (s : Engine η) id, (x s).2.cache id = s.cache id) : x.GoesByActs := by
  intro s id
  rw [h]
  exact .refl _

/-- A sequence of steps goes by acts if each of them does. -/
theorem bind (hx : x.GoesByActs) (hf : ∀ a, (f a).GoesByActs) : (x >>= f).GoesByActs := by
  intro s id
  have hcache := hx s id
  rcases h : x s with ⟨e | a, t⟩ <;> rw [h] at hcache
  · rw [bind_of_error h]
    exact hcache
  · rw [bind_of_ok h]
    exact hcache.trans (hf a t id)

/-- A step on one cache. -/
theorem onCache {g : Engine η → EngineCache → Except Problem α × EngineCache}
    (hg : ∀ (s : Engine η) (c : EngineCache), c.GoesByActs (g s c).2) :
    GoesByActs fun s => Engine.onCache id (g s) s := by
  intro s id'
  rw [Engine.snd_onCache, Engine.cache_setCache]
  split
  · next h => exact h ▸ hg s _
  · exact .refl _

/-- Looking a key up in a cache of the engine goes by acts. -/
theorem cacheGet : (Engine.cacheGet (η := η) id key).GoesByActs :=
  onCache fun s c => .get c s.clock key.normal

/-- Writing to a cache of the engine goes by acts. -/
theorem cachePut {value : Option Kept} {ttl : Option Float} :
    (Engine.cachePut (η := η) id key value ttl).GoesByActs :=
  onCache fun s c => .put c s.clock key.normal (value.map (c.deposit key)) ttl

/-- Removing a key from a cache of the engine goes by acts. -/
theorem cacheInvalidate : (Engine.cacheInvalidate (η := η) id key).GoesByActs :=
  onCache fun _ c => .invalidate c key.normal

/-- Dropping matching entries from a cache of the engine goes by acts. -/
theorem cacheInvalidateWhere {test : CacheKey → Except Problem Bool} :
    (Engine.cacheInvalidateWhere (η := η) id test).GoesByActs :=
  onCache fun _ c => .invalidateWhere c fun _ d => test d.label

/-- Emptying a cache of the engine goes by acts. -/
theorem cacheClear : (Engine.cacheClear (η := η) id).GoesByActs := onCache fun _ c => .clear c

/-- **A value that is asked for with a computation,** whatever that does with the caches. -/
theorem cacheGetOrCompute {compute : Action η (Option Kept)} (hcompute : compute.GoesByActs)
    {ttl : Option Float} : (Engine.cacheGetOrCompute id key compute ttl).GoesByActs := by
  have henter : GoesByActs fun s : Engine η =>
      Engine.onCache id (fun c => c.enter s.clock key.normal) s :=
    onCache fun s c => .enter c s.clock key.normal
  have hleave : GoesByActs fun s : Engine η =>
      Engine.onCache id (fun c => c.leave key.normal) s := onCache fun _ c => .leave c key.normal
  have hput : (Engine.computeAndPut id key compute ttl).GoesByActs :=
    hcompute.bind fun v => cachePut.bind fun _ => of_cache fun _ _ => rfl
  intro s id'
  have hentered := henter s id'
  dsimp only at hentered
  unfold Engine.cacheGetOrCompute
  rcases h : Engine.onCache id (fun c => c.enter s.clock key.normal) s with ⟨e | _ | d, entered⟩ <;>
    rw [h] at hentered
  · exact hentered
  · dsimp only
    split
    · exact .refl _
    · exact (hentered.trans (hput entered id')).trans (hleave _ id')
  · exact hentered

end Action.GoesByActs

namespace Engine

variable {s t : Engine η} {id : CacheId} {key : CacheKey} {m : MemoryCache CacheKey Deposit}
  {ttl : Option Float} {v : Kept} {compute : Action η (Option Kept)}

/-- A write is one act. -/
theorem cachePut_memory (hs : s.cache id = .memory m) (hkey : key.normal.unfit? = none) (v : Kept)
    (ttl : Option Float) : cachePut id key (some v) ttl s = (.ok (), s.setCache id
      (.memory (m.after [.put s.clock s.clock key.normal ((s.cache id).deposit key v) ttl]))) := by
  refine onCache_of_eq_ok ?_
  rw [Option.map_some, hs, Cache.put_memory hkey]
  rfl

/-- An absent value is refused and nothing is done. -/
theorem cachePut_none (hs : s.cache id = .memory m) (key : CacheKey) (ttl : Option Float) :
    cachePut id key none ttl s = (.error (.ofProblem .nothingToKeep), s) := by
  rw [cachePut, onCache, hs]
  exact congrArg (Prod.mk _) (setCache_of_cache hs)

/-! ### A value with its computation -/

/-- **A computation hands its failure on,** one without a value keeps nothing, and any other value is
put. -/
theorem computeAndPut_eq (hs : (compute s).2.cache id = .memory m)
    (hkey : key.normal.unfit? = none) (ttl : Option Float) : computeAndPut id key compute ttl s =
      match (compute s).1 with
      | .error e => (.error e, (compute s).2)
      | .ok none => (.error (.ofProblem .nothingToKeep), (compute s).2)
      | .ok (some v) => (.ok (some v), (cachePut id key (some v) ttl (compute s).2).2) := by
  unfold computeAndPut
  rcases hr : compute s with ⟨e | _ | v, t⟩ <;> rw [hr] at hs
  · exact Action.bind_of_error hr
  · rw [Action.bind_of_ok hr, Action.bind_of_error (cachePut_none hs key ttl)]
  · have hput := cachePut_memory hs hkey v ttl
    dsimp only
    rw [Action.bind_of_ok hr, Action.bind_of_ok hput, hput]
    rfl

/-- The engine after a value was asked for with a computation. -/
def entered (s : Engine η) (id : CacheId) (key : CacheKey) (m : MemoryCache CacheKey Deposit) :
    Engine η :=
  s.setCache id (.memory (m.after [.enter s.clock key.normal]))

/-- Beginning a computation in memory finds what is there and leaves a mark otherwise. -/
theorem onCache_enter (hs : s.cache id = .memory m) (hkey : key.normal.unfit? = none) :
    onCache id (fun c => c.enter s.clock key.normal) s =
      (.ok (m.enter s.clock key.normal).1, s.entered id key m) := by
  refine onCache_of_eq_ok ?_
  rw [hs, Cache.enter_memory hkey]
  rfl

/-- Ending a computation in memory takes the mark away. -/
theorem onCache_leave (hs : s.cache id = .memory m) :
    onCache id (fun c => c.leave key.normal) s =
      (.ok (), s.setCache id (.memory (m.after [.leave key.normal]))) := by
  refine onCache_of_eq_ok ?_
  rw [hs]
  rfl

/-- **A value that is there is given at once.** -/
theorem cacheGetOrCompute_of_hit (hs : s.cache id = .memory m) (hkey : key.normal.unfit? = none)
    {d : Deposit} (hhit : (m.get s.clock key.normal).1 = some d) :
    cacheGetOrCompute id key compute ttl s = (.ok (some d.value), s.entered id key m) := by
  rw [← MemoryCache.fst_enter] at hhit
  simp only [cacheGetOrCompute, onCache_enter hs hkey, hhit]

/-- On a miss the value is computed and kept, and the computation ends. -/
theorem cacheGetOrCompute_of_miss (hs : s.cache id = .memory m) (hkey : key.normal.unfit? = none)
    (hmiss : (m.get s.clock key.normal).1 = none) (hfree : key.normal ∉ m.inFlight) :
    cacheGetOrCompute id key compute ttl s =
      let r := computeAndPut id key compute ttl (s.entered id key m)
      let left := onCache id (fun c => c.leave key.normal) r.2
      (left.1.bind fun _ => r.1, left.2) := by
  rw [← MemoryCache.fst_enter] at hmiss
  have hflight : (s.cache id).isInFlight key.normal = false := by
    simpa [hs, Cache.isInFlight] using hfree
  simp only [cacheGetOrCompute, onCache_enter hs hkey, hmiss, hflight]
  rfl

/-- **A value that is computed is kept,** behind whatever the computation did. -/
theorem cacheGetOrCompute_of_value (hs : s.cache id = .memory m) (hkey : key.normal.unfit? = none)
    (hmiss : (m.get s.clock key.normal).1 = none) (hfree : key.normal ∉ m.inFlight)
    (hcompute : compute (s.entered id key m) = (.ok (some v), t))
    {m' : MemoryCache CacheKey Deposit} (ht : t.cache id = .memory m') :
    ∃ u, cacheGetOrCompute id key compute ttl s = (.ok (some v), u) ∧
      u.cache id = .memory (m'.after [.leave key.normal,
        .put t.clock t.clock key.normal ((t.cache id).deposit key v) ttl]) := by
  have hcache : (compute (s.entered id key m)).2.cache id = .memory m' := by rw [hcompute, ht]
  have hput := cachePut_memory ht hkey v ttl
  rw [cacheGetOrCompute_of_miss hs hkey hmiss hfree, computeAndPut_eq hcache hkey, hcompute]
  dsimp only
  rw [hput, onCache_leave (t.cache_setCache_self id _)]
  exact ⟨_, rfl, Engine.cache_setCache_self _ id _⟩

/-- **A computation that fails keeps nothing,** nor does one without a value. -/
theorem cacheGetOrCompute_of_error (hs : s.cache id = .memory m) (hkey : key.normal.unfit? = none)
    (hmiss : (m.get s.clock key.normal).1 = none) (hfree : key.normal ∉ m.inFlight)
    {o : Except Failure (Option Kept)} (hcompute : compute (s.entered id key m) = (o, t))
    (ho : ∀ v, o ≠ .ok (some v)) {m' : MemoryCache CacheKey Deposit}
    (ht : t.cache id = .memory m') :
    ∃ e u, cacheGetOrCompute id key compute ttl s = (.error e, u) ∧
      u.cache id = .memory (m'.after [.leave key.normal]) := by
  have hcache : (compute (s.entered id key m)).2.cache id = .memory m' := by rw [hcompute, ht]
  rw [cacheGetOrCompute_of_miss hs hkey hmiss hfree, computeAndPut_eq hcache hkey, hcompute]
  rcases o with e | _ | v <;> dsimp only
  · rw [onCache_leave ht]
    exact ⟨e, _, rfl, t.cache_setCache_self id _⟩
  · rw [onCache_leave ht]
    exact ⟨_, _, rfl, t.cache_setCache_self id _⟩
  · exact absurd rfl (ho v)

/-- **A lookup answers as it does after any history** of a fresh cache, whatever an engine has done. -/
theorem cacheGet_of_acts {x : Action η β} (hx : x.GoesByActs) {defaultTtl : Option Float}
    {capacity : Nat} (hs : s.cache id = .memory (.create defaultTtl capacity))
    (hkey : key.normal.unfit? = none) :
    ∃ acts, (x s).2.cache id = .memory ((MemoryCache.create defaultTtl capacity).after acts) ∧
      (cacheGet id key (x s).2).1 = .ok ((((MemoryCache.create defaultTtl capacity).after acts).get
        (x s).2.clock key.normal).1.map (·.value)) := by
  obtain ⟨acts, hacts⟩ := hx s id _ hs
  refine ⟨acts, hacts, ?_⟩
  rw [cacheGet, fst_onCache, hacts, Cache.get_memory hkey]
  rfl

end Engine

end Gatehouse
