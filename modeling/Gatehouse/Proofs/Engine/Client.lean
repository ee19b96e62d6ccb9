import Gatehouse.Proofs.Engine.Acts

/-!
# Clients of caches

A `Client` is a program that calls the caches of an engine, one call after the other: what it does
next may depend on what came back, it may go on after a failed call, and it may ask for a value with
a computation, which is a client in its turn.  Between the calls it does whatever has nothing to do
with caches, such as letting time pass (`Action.SparesCaches`).

A run of a client is a history of each cache in memory: `Client.acts` lists what its calls, and those
of its computations, do to one of them, and after the run the cache is left as by these acts
(`Client.cache_run`); and no run leaves a mark of a key in flight, or takes one away
(`Client.inFlight_after_acts`).
-/

namespace Gatehouse

/-- An action that has nothing to do with caches: it neither reads nor changes them. -/
def Action.SparesCaches {η α : Type} (x : Action η α) : Prop :=
  ∀ (s : Engine η) (caches : OrderedMap CacheId EngineCache),
    x { s with caches := caches } = ((x s).1, { (x s).2 with caches := caches })

namespace Action.SparesCaches

variable {η α : Type} {x : Action η α}

/-- Who spares the caches leaves all of them. -/
theorem caches (h : x.SparesCaches) (s : Engine η) : (x s).2.caches = s.caches :=
  congrArg (fun r : Except Failure α × Engine η => r.2.caches) (h s s.caches)

/-- Who spares the caches leaves each of them. -/
theorem cache (h : x.SparesCaches) (s : Engine η) (id : CacheId) :
    (x s).2.cache id = s.cache id := by
  rw [Engine.cache, h.caches, Engine.cache]

end Action.SparesCaches

/-- A program that calls the caches of an engine. -/
inductive Client (η : Type) : Type → Type 1 where
  /-- Something that has nothing to do with caches. -/
  | apart {α : Type} (x : Action η α) (h : x.SparesCaches) : Client η α
  /-- One thing after the other, unless the first one fails. -/
  | andThen {α β : Type} (x : Client η α) (f : α → Client η β) : Client η β
  /-- Something that may fail, with its failure as a result. -/
  | attempt {α : Type} (x : Client η α) : Client η (Except Failure α)
  /-- Looks a key up. -/
  | get (id : CacheId) (key : CacheKey) : Client η (Option Kept)
  /-- Writes a value that may be absent. -/
  | put (id : CacheId) (key : CacheKey) (value : Option Kept) (ttl : Option Float) : Client η Unit
  /-- Asks for a value with a computation. -/
  | getOrCompute (id : CacheId) (key : CacheKey) (compute : Client η (Option Kept))
    (ttl : Option Float) : Client η (Option Kept)
  /-- Drops a key. -/
  | invalidate (id : CacheId) (key : CacheKey) : Client η Bool
  /-- Drops the entries whose labels satisfy a test. -/
  | invalidateWhere (id : CacheId) (test : CacheKey → Except Problem Bool) : Client η Nat
  /-- Drops everything. -/
  | clear (id : CacheId) : Client η Nat
  /-- Reads the counters. -/
  | stats (id : CacheId) : Client η CacheStats

namespace Client

variable {η α β : Type}

/-- What a client does to an engine. -/
def run {α : Type} : Client η α → Action η α
  | apart x _ => x
  | andThen x f => x.run >>= fun a => (f a).run
  | attempt x => fun s => (.ok (x.run s).1, (x.run s).2)
  | get id key => Engine.cacheGet id key
  | put id key value ttl => Engine.cachePut id key value ttl
  | getOrCompute id key compute ttl => Engine.cacheGetOrCompute id key compute.run ttl
  | invalidate id key => Engine.cacheInvalidate id key
  | invalidateWhere id test => Engine.cacheInvalidateWhere id test
  | clear id => Engine.cacheClear id
  | stats id => Engine.cacheStats id

/-- A result at once. -/
def done (a : α) : Client η α := apart (.done a) fun _ _ => rfl

/-- Letting time pass has nothing to do with caches. -/
def wait (seconds : Float) : Client η Unit :=
  apart (.change fun s => { s with clock := s.clock + seconds }) fun _ _ => rfl

/-! ### The acts of a run -/

/-- What a call does to a cache: nothing, if it is a call on another cache or is not accepted. -/
def called (id id' : CacheId) (accepted : Bool) (act : CacheAct CacheKey Deposit) :
    List (CacheAct CacheKey Deposit) :=
  if id' = id ∧ accepted = true then [act] else []

/-- What a call with a key does to a cache: a key that cannot be looked up is not accepted. -/
def calledWith (id id' : CacheId) (key : CacheKey) (act : CacheAct CacheKey Deposit) :
    List (CacheAct CacheKey Deposit) :=
  called id id' key.normal.unfit?.isNone act

/-- What a write does to a cache: an absent value is not accepted. -/
def written (id id' : CacheId) (key : CacheKey) (value : Option Kept) (ttl : Option Float)
    (s : Engine η) : List (CacheAct CacheKey Deposit) :=
  match value with
  | none => []
  | some v => calledWith id id' key
      (.put s.clock s.clock key.normal ((s.cache id').deposit key v) ttl)

/-- What the write of a computed value does to a cache: a computation that failed has none. -/
def keeping (id id' : CacheId) (key : CacheKey) (ttl : Option Float) :
    Except Failure (Option Kept) × Engine η → List (CacheAct CacheKey Deposit)
  | (.ok v, t) => written id id' key v ttl t
  | (.error _, _) => []

/-- **What the calls of a client do to one cache in memory,** latest first.  A value that is found is
only looked up; on a miss there follow the calls of the computation, the write of what it gives, and
the end of the computation.  A call that would wait for itself does nothing. -/
def acts (id : CacheId) {α : Type} : Client η α → Engine η → List (CacheAct CacheKey Deposit)
  | apart _ _, _ => []
  | andThen x f, s =>
    match x.run s with
    | (.ok a, t) => (f a).acts id t ++ x.acts id s
    | (.error _, _) => x.acts id s
  | attempt x, s => x.acts id s
  | get id' key, s => calledWith id id' key (.get s.clock key.normal)
  | put id' key value ttl, s => written id id' key value ttl s
  | getOrCompute id' key compute ttl, s =>
    let entering := calledWith id id' key (.enter s.clock key.normal)
    match Engine.onCache id' (fun c => c.enter s.clock key.normal) s with
    | (.ok none, entered) =>
      if (s.cache id').isInFlight key.normal then []
      else
        called id id' true (.leave key.normal) ++ keeping id id' key ttl (compute.run entered) ++
          compute.acts id entered ++ entering
    | _ => entering
  | invalidate id' key, _ => calledWith id id' key (.invalidate key.normal)
  | invalidateWhere id' test, _ => called id id' true (.invalidateWhere fun _ d => test d.label)
  | clear id', _ => called id id' true .clear
  | stats _, _ => []

variable {id id' : CacheId} {key : CacheKey} {s t : Engine η} {m : MemoryCache CacheKey Deposit}

/-- A call leaves a cache in memory as by what it does to it. -/
theorem cache_onCache {f : EngineCache → Except Problem β × EngineCache} {accepted : Bool}
    {act : CacheAct CacheKey Deposit} (hs : s.cache id = .memory m)
    (hf : id' = id → (f (.memory m)).2 = .memory (if accepted then act.run m else m)) :
    (Engine.onCache id' f s).2.cache id = .memory (m.after (called id id' accepted act)) := by
  rw [Engine.snd_onCache, Engine.cache_setCache, called]
  by_cases hid : id' = id
  · subst hid
    rw [if_pos rfl, hs, hf rfl]
    cases accepted <;> simp <;> rfl
  · rw [if_neg fun h => hid h.symm, if_neg fun h => hid h.1, hs]
    rfl

/-- What is left of a cache in memory after a write, to it or to another one. -/
theorem cache_put (hs : s.cache id = .memory m) (id' : CacheId) (key : CacheKey)
    (value : Option Kept) (ttl : Option Float) : (Engine.cachePut id' key value ttl s).2.cache id =
      .memory (m.after (written id id' key value ttl s)) := by
  cases value with
  | none =>
    rw [Engine.cachePut, Engine.snd_onCache, Engine.cache_setCache]
    split
    · next hid => rw [← hid, hs]; rfl
    · exact hs
  | some v =>
    refine cache_onCache hs fun hid => ?_
    rw [hid, hs]
    exact Cache.snd_withKey_eq m key.normal _

/-- What beginning a computation does to one cache. -/
theorem cache_enter (hs : s.cache id = .memory m) (id' : CacheId) (key : CacheKey) :
    (Engine.onCache id' (fun c => c.enter s.clock key.normal) s).2.cache id =
      .memory (m.after (calledWith id id' key (.enter s.clock key.normal))) :=
  cache_onCache hs fun _ => Cache.snd_withKey_eq m key.normal _

/-- What ending a computation does to one cache. -/
theorem cache_leave (hs : s.cache id = .memory m) (id' : CacheId) (key : CacheKey) :
    (Engine.onCache id' (fun c => c.leave key.normal) s).2.cache id =
      .memory (m.after (called id id' true (.leave key.normal))) :=
  cache_onCache hs fun _ => rfl

/-- What computing a value and keeping it does to one cache, after the computation. -/
theorem cache_computeAndPut {compute : Action η (Option Kept)}
    (h : (compute s).2.cache id = .memory m) (id' : CacheId) (key : CacheKey) (ttl : Option Float) :
    (Engine.computeAndPut id' key compute ttl s).2.cache id =
      .memory (m.after (keeping id id' key ttl (compute s))) := by
  rw [Engine.computeAndPut]
  rcases hr : compute s with ⟨e | v, t⟩ <;> rw [hr] at h
  · rw [Action.bind_of_error hr]
    exact h
  · rw [Action.bind_of_ok hr, bind_pure_comp, Action.map_apply]
    exact cache_put h id' key v ttl

/-- **A run of a client leaves a cache in memory as by its acts.** -/
theorem cache_run (x : Client η α) (id : CacheId) {s : Engine η} {m : MemoryCache CacheKey Deposit}
    (hs : s.cache id = .memory m) :
    (x.run s).2.cache id = .memory (m.after (x.acts id s)) := by
  induction x generalizing s m with
  | apart x h => exact (h.cache s id).trans hs
  | andThen x f ihx ihf =>
    have hx := ihx hs
    rw [run, acts]
    rcases h : x.run s with ⟨e | a, t⟩ <;> rw [h] at hx
    · rw [Action.bind_of_error h]
      exact hx
    · rw [Action.bind_of_ok h, MemoryCache.after_append]
      exact ihf a hx
  | attempt x ih => exact ih hs
  | get id' key => exact cache_onCache hs fun _ => Cache.snd_withKey_eq m key.normal _
  | put id' key value ttl => exact cache_put hs id' key value ttl
  | getOrCompute id' key compute ttl ih =>
    have hentered := cache_enter hs id' key
    rw [run, acts, Engine.cacheGetOrCompute]
    rcases h : Engine.onCache id' (fun c => c.enter s.clock key.normal) s with ⟨e | _ | d, entered⟩ <;>
      rw [h] at hentered
    · exact hentered
    · dsimp only
      split
      · exact hs
      · have hcomputed := ih hentered
        rw [MemoryCache.after_append, MemoryCache.after_append, MemoryCache.after_append]
        exact cache_leave (cache_computeAndPut hcomputed id' key ttl) id' key
    · exact hentered
  | invalidate id' key => exact cache_onCache hs fun _ => Cache.snd_invalidate_memory m key.normal
  | invalidateWhere id' test => exact cache_onCache hs fun _ => Cache.snd_invalidateWhere_memory m _
  | clear id' => exact cache_onCache hs fun _ => rfl
  | stats id' =>
    rw [run, Engine.cacheStats, Action.snd_ofProblem]
    exact hs

/-- Whatever a client does is a history of each cache in memory. -/
theorem goesByActs_run (x : Client η α) : x.run.GoesByActs := fun _ id _ hs => ⟨_, x.cache_run id hs⟩

/-! ### Marks -/

/-- A call that leaves the marks of every cache leaves those of this one. -/
theorem inFlight_called {accepted : Bool} {act : CacheAct CacheKey Deposit}
    (h : ∀ c : MemoryCache CacheKey Deposit, (act.run c).inFlight = c.inFlight)
    (m : MemoryCache CacheKey Deposit) :
    (m.after (called id id' accepted act)).inFlight = m.inFlight := by
  unfold called
  split
  · exact h m
  · rfl

/-- A write leaves the marks. -/
theorem inFlight_written (value : Option Kept) (ttl : Option Float) (s : Engine η)
    (m : MemoryCache CacheKey Deposit) :
    (m.after (written id id' key value ttl s)).inFlight = m.inFlight := by
  cases value with
  | none => rfl
  | some v => exact inFlight_called (CacheAct.inFlight_run _) m

/-- Keeping a computed value leaves the marks. -/
theorem inFlight_keeping (ttl : Option Float) (r : Except Failure (Option Kept) × Engine η)
    (m : MemoryCache CacheKey Deposit) :
    (m.after (keeping id id' key ttl r)).inFlight = m.inFlight := by
  rcases r with ⟨e | v, t⟩
  · rfl
  · exact inFlight_written v ttl t m

/-- A key is marked where it is looked up with a computation and missed. -/
theorem inFlight_entering (hs : s.cache id = .memory m) (id' : CacheId) (key : CacheKey) :
    (m.after (calledWith id id' key (.enter s.clock key.normal))).inFlight =
      if id' = id ∧ (Engine.onCache id' (fun c => c.enter s.clock key.normal) s).1 = .ok none then
        key.normal :: m.inFlight
      else m.inFlight := by
  by_cases hid : id' = id
  · subst hid
    rcases hkey : key.normal.unfit? with _ | shape
    · rw [Engine.onCache_enter hs hkey, MemoryCache.fst_enter, calledWith, called, hkey]
      have hrun := CacheAct.inFlight_run (.enter s.clock key.normal) m
      rw [if_pos ⟨rfl, rfl⟩]
      refine hrun.trans ?_
      dsimp only
      rcases (m.get s.clock key.normal).1 with _ | d <;> simp
    · have hrefused : (Engine.onCache id' (fun c => c.enter s.clock key.normal) s).1 =
          .error (.ofProblem (.unfitForKey shape)) := by
        rw [Engine.fst_onCache, hs, Cache.enter, Cache.withKey, hkey]
        rfl
      simp [calledWith, called, hkey, hrefused, MemoryCache.after]
  · simp [calledWith, called, hid, MemoryCache.after]

/-- **No run of a client leaves a mark of a key in flight,** or takes one away. -/
theorem inFlight_after_acts (x : Client η α) (id : CacheId) {s : Engine η}
    {m : MemoryCache CacheKey Deposit} (hs : s.cache id = .memory m) :
    (m.after (x.acts id s)).inFlight = m.inFlight := by
  induction x generalizing s m with
  | apart x h => rfl
  | andThen x f ihx ihf =>
    have hx := x.cache_run id hs
    rw [acts]
    rcases h : x.run s with ⟨e | a, t⟩ <;> rw [h] at hx
    · exact ihx hs
    · rw [MemoryCache.after_append]
      exact (ihf a hx).trans (ihx hs)
  | attempt x ih => exact ih hs
  | get id' key => exact inFlight_called (CacheAct.inFlight_run _) m
  | put id' key value ttl => exact inFlight_written value ttl s m
  | getOrCompute id' key compute ttl ih =>
    have hentered := cache_enter hs id' key
    have hmark := inFlight_entering hs id' key
    rw [acts]
    rcases h : Engine.onCache id' (fun c => c.enter s.clock key.normal) s with ⟨e | _ | d, entered⟩ <;>
      rw [h] at hentered hmark
    · simpa using hmark
    · dsimp only
      split
      · rfl
      · -- the computation leaves the mark of its key, and the last act takes it away
        have hcomputed := (ih hentered).trans hmark
        rw [MemoryCache.after_append, MemoryCache.after_append, MemoryCache.after_append]
        by_cases hid : id' = id
        · rw [if_pos ⟨hid, rfl⟩] at hcomputed
          rw [called, if_pos ⟨hid, rfl⟩]
          refine (CacheAct.inFlight_run (.leave key.normal) _).trans ?_
          refine (congrArg (List.erase · key.normal)
            ((inFlight_keeping _ _ _).trans hcomputed)).trans ?_
          exact List.erase_cons_head _ _
        · rw [if_neg fun h => hid h.1] at hcomputed
          rw [called, if_neg fun h => hid h.1]
          exact (inFlight_keeping _ _ _).trans hcomputed
    · simpa using hmark
  | invalidate id' key => exact inFlight_called (CacheAct.inFlight_run _) m
  | invalidateWhere id' test => exact inFlight_called (CacheAct.inFlight_run _) m
  | clear id' => exact inFlight_called (CacheAct.inFlight_run _) m
  | stats id' => rfl

end Client

end Gatehouse
