import Gatehouse.Engine.Steps
import Gatehouse.Proofs.Cache.Plain
import Mathlib.Logic.Relation

/-!
# What an action does to an engine

An action meets a specification if it goes by steps of a given sort only, whether it succeeds or
not, and its result is as promised where it succeeds (`Action.Meets`).  A sequence meets what its
parts meet (`Action.Meets.bind`), and what no step can spoil need not be promised
(`Action.Meets.frame`).  The second part says what the single steps of an engine do: a check of a
context changes nothing (`Engine.snd_checkContext`), and a step on a cache changes that cache only.
-/

namespace Gatehouse

open Relation (ReflTransGen)

namespace Action

variable {η α β : Type} {R : Engine η → Engine η → Prop} {P P' I : Engine η → Prop}
  {x : Action η α} {f : α → Action η β} {Q Q' : α → Engine η → Prop} {S : β → Engine η → Prop}
  {s t : Engine η} {a : α} {b : β}

/-- A sequence succeeds exactly if both of its parts do, one after the other. -/
theorem bind_eq_ok_iff : (x >>= f) s = (.ok b, t) ↔ ∃ a u, x s = (.ok a, u) ∧ f a u = (.ok b, t) :=
  andThen_eq_ok_iff

/-- After a success, a sequence goes on with the answer. -/
theorem bind_of_ok (h : x s = (.ok a, t)) : (x >>= f) s = f a t := andThen_of_ok h f

/-- After a failure, a sequence does nothing more. -/
theorem bind_of_error {e : Failure} (h : x s = (.error e, t)) : (x >>= f) s = (.error e, t) :=
  andThen_of_error h f

/-- A sequence stops with its first step, or goes on with the second. -/
theorem bind_cases {o : Except Failure β × Engine η} (h : (x >>= f) s = o) :
    (∃ e t, x s = (.error e, t) ∧ o = (.error e, t)) ∨ ∃ a t, x s = (.ok a, t) ∧ f a t = o := by
  rcases hx : x s with ⟨e | a, t⟩
  · exact .inl ⟨e, t, rfl, by rw [← h, bind_of_error hx]⟩
  · exact .inr ⟨a, t, rfl, by rw [← h, bind_of_ok hx]⟩

/-- A change of the result changes nothing else. -/
theorem map_apply (g : α → β) (x : Action η α) (s : Engine η) :
    (g <$> x) s = ((x s).1.map g, (x s).2) := by
  rcases h : x s with ⟨e | a, t⟩
  · exact bind_of_error h
  · exact bind_of_ok h

/-- A computation without effects leaves the state as it is. -/
@[simp] theorem snd_ofProblem (v : Except Problem α) (s : Engine η) :
    ((ofProblem v : Action η α) s).2 = s := by
  cases v <;> rfl

/-- A computation that succeeds without effects only hands its result on. -/
theorem ofProblem_ok_bind (a : α) (f : α → Action η β) : (ofProblem (.ok a) >>= f) = f a := rfl

/-- A sequence leaves the host as its first part does if the rest leaves it alone. -/
theorem host_bind_left (hf : ∀ a s, (f a s).2.host = s.host) (s : Engine η) :
    ((x >>= f) s).2.host = (x s).2.host := by
  rcases h : x s with ⟨e | a, t⟩
  · rw [bind_of_error h]
  · rw [bind_of_ok h, hf]

/-- A sequence leaves the host alone if its parts do. -/
theorem host_bind (hx : ∀ s, (x s).2.host = s.host) (hf : ∀ a s, (f a s).2.host = s.host)
    (s : Engine η) : ((x >>= f) s).2.host = s.host := by
  rw [host_bind_left hf, hx]

/-- A sequence leaves the engine as it is if its parts do. -/
theorem snd_bind (hx : ∀ s, (x s).2 = s) (hf : ∀ a s, (f a s).2 = s) (s : Engine η) :
    ((x >>= f) s).2 = s := by
  rcases h : x s with ⟨e | a, t⟩ <;> obtain rfl : t = s := (congrArg Prod.snd h).symm.trans (hx s)
  · rw [bind_of_error h]
  · rw [bind_of_ok h, hf]

/-- **A specification of an action:** started where `P` holds, it goes by steps of `R` only, and
where it succeeds, `Q` holds of its result and the state that it leaves. -/
def Meets (R : Engine η → Engine η → Prop) (P : Engine η → Prop) (x : Action η α)
    (Q : α → Engine η → Prop) : Prop :=
  ∀ s, P s → ReflTransGen R s (x s).2 ∧ ∀ a, (x s).1 = .ok a → Q a (x s).2

namespace Meets

/-- Giving an answer that is right already meets the promise. -/
theorem done (h : ∀ s, P s → Q a s) : Meets R P (done a) Q := by
  intro s hs
  refine ⟨.refl, fun b hb => ?_⟩
  obtain rfl := Except.ok.inj hb
  exact h s hs

/-- A failure promises nothing. -/
theorem fail {e : Failure} : Meets R P (fail e) Q := fun _ _ => ⟨.refl, fun _ h => nomatch h⟩

/-- A fault promises nothing. -/
theorem fault {g : Fault} : Meets R P (fault g) Q := fail

/-- Passing on a result promises what its success does. -/
theorem ofProblem {v : Except Problem α} (h : ∀ a s, P s → v = .ok a → Q a s) :
    Meets R P (ofProblem v) Q := by
  cases v with
  | error p => exact fail
  | ok a => exact done fun s hs => h a s hs rfl

/-- What an action leaves that meets a specification. -/
theorem of_eq {o : Except Failure α} (h : Meets R P x Q) (hs : P s) (hx : x s = (o, t)) :
    ReflTransGen R s t ∧ ∀ a, o = .ok a → Q a t := by
  have hspec := h s hs
  rw [hx] at hspec
  exact hspec

/-- What is met wherever something of a sort holds is met where there is such a thing. -/
theorem of_exists {γ : Type} {F : γ → Engine η → Prop} (h : ∀ c, Meets R (F c) x Q) :
    Meets R (fun s => ∃ c, F c s) x Q :=
  fun s ⟨c, hc⟩ => h c s hc

/-- What is known before, whatever the state, may be used throughout. -/
theorem of_fact {F : Prop} (h : F → Meets R P x Q) : Meets R (fun s => P s ∧ F) x Q :=
  fun s hs => h hs.2 s hs.1

/-- **A sequence meets what its parts meet.** -/
theorem bind (hx : Meets R P x Q) (hf : ∀ a, Meets R (Q a) (f a) S) : Meets R P (x >>= f) S := by
  intro s hs
  obtain ⟨hsteps, hresult⟩ := hx s hs
  rcases h : x s with ⟨e | a, t⟩
  · rw [h] at hsteps
    rw [bind_of_error h]
    exact ⟨hsteps, fun _ h => nomatch h⟩
  · rw [h] at hsteps hresult
    rw [bind_of_ok h]
    obtain ⟨hsteps', hresult'⟩ := hf a t (hresult a rfl)
    exact ⟨hsteps.trans hsteps', hresult'⟩

/-- What a sequence does after its first part. -/
theorem rest (hx : Meets R P x Q) (hf : ∀ a, Meets R (Q a) (f a) S) (hs : P s) :
    ReflTransGen R (x s).2 ((x >>= f) s).2 := by
  obtain ⟨-, hresult⟩ := hx s hs
  rcases h : x s with ⟨e | a, t⟩
  · rw [bind_of_error h]
  · rw [h] at hresult
    rw [bind_of_ok h]
    exact (hf a t (hresult a rfl)).1

/-- A specification with more to start from and less to promise. -/
theorem mono (h : Meets R P x Q) (hP : ∀ s, P' s → P s) (hQ : ∀ a s, Q a s → Q' a s) :
    Meets R P' x Q' :=
  fun s hs => ⟨(h s (hP s hs)).1, fun a ha => hQ a _ ((h s (hP s hs)).2 a ha)⟩

/-- **What no step can spoil stays.** -/
theorem frame (h : Meets R P x Q) (hI : ∀ s t, R s t → I s → I t) :
    Meets R (fun s => I s ∧ P s) x fun a s => I s ∧ Q a s := by
  rintro s ⟨hi, hp⟩
  obtain ⟨hsteps, hresult⟩ := h s hp
  have hkept : I (x s).2 := by
    generalize (x s).2 = t at hsteps
    induction hsteps with
    | refl => exact hi
    | tail _ hstep ih => exact hI _ _ hstep ih
  exact ⟨hsteps, fun a ha => ⟨hkept, hresult a ha⟩⟩

/-- An action that leaves the state as it is. -/
theorem of_snd_eq (h : ∀ s, (x s).2 = s) : Meets R P x fun _ => P :=
  fun s hs => ⟨by rw [h s], fun _ _ => by rw [h s]; exact hs⟩

end Meets

end Action

namespace Engine

variable {η α : Type} {s t : Engine η} {id id' : CacheId} {key : CacheKey}

/-! ### Contexts -/

/-- A check of a context changes nothing. -/
@[simp] theorem snd_checkContext (ctx : ContextId) (s : Engine η) : (checkContext ctx s).2 = s := by
  unfold checkContext
  split
  · rfl
  · next c _ =>
    rcases h : c.check (s.reading c.source) with f | u <;> rfl

/-- Checking a context leaves the engine as it is. -/
theorem eq_of_checkContext {ctx : ContextId} {o : Except Failure Unit}
    (h : checkContext ctx s = (o, t)) : s = t := by
  rw [← snd_checkContext ctx s, h]

/-- Engines with the same clocks read the same. -/
theorem reading_congr {θ : Type} {t : Engine θ} (hclock : s.clock = t.clock)
    (hmachine : s.machine = t.machine) : s.reading = t.reading := by
  funext source
  cases source with
  | engine => exact hclock
  | machine => exact hmachine

/-- A check of a context depends on the contexts and on the clocks only. -/
theorem fst_checkContext_congr {θ : Type} {t : Engine θ} (hcontexts : s.contexts = t.contexts)
    (hclock : s.clock = t.clock) (hmachine : s.machine = t.machine) (ctx : ContextId) :
    (checkContext ctx s).1 = (checkContext ctx t).1 := by
  have hreading := reading_congr hclock hmachine
  unfold checkContext
  rw [hcontexts, hreading]
  split
  · rfl
  · next c _ =>
    rcases h : c.check (t.reading c.source) with f | u <;> rfl

/-- The context of a resolution, and the engine in which it begins. -/
def opened (ctx : Option ContextId) (s : Engine η) : ContextId × Engine η :=
  match ctx with
  | some id => (id, { s with running := id :: s.running })
  | none =>
    let r := s.contexts.create .machine none none (s.reading .machine)
    (r.2, { s with contexts := r.1, running := r.2 :: s.running })

/-- Opening a context leaves the caches. -/
@[simp] theorem caches_opened (ctx : Option ContextId) (s : Engine η) :
    (s.opened ctx).2.caches = s.caches := by cases ctx <;> rfl

/-- Opening a context leaves each cache. -/
@[simp] theorem cache_opened (ctx : Option ContextId) (s : Engine η) (id : CacheId) :
    (s.opened ctx).2.cache id = s.cache id := by cases ctx <;> rfl

/-- Opening a context leaves the host. -/
@[simp] theorem host_opened (ctx : Option ContextId) (s : Engine η) :
    (s.opened ctx).2.host = s.host := by cases ctx <;> rfl

/-- Opening a context leaves the clock. -/
@[simp] theorem clock_opened (ctx : Option ContextId) (s : Engine η) :
    (s.opened ctx).2.clock = s.clock := by cases ctx <;> rfl

/-- Checking a context that is not cancelled does nothing. -/
theorem checkContext_eq_ok (ctx : ContextId) (h : (checkContext ctx s).1 = .ok ()) :
    checkContext ctx s = (.ok (), s) :=
  Prod.ext h (snd_checkContext ctx s)

/-! ### Caches -/

/-- A step on a cache leaves the engine with that cache changed. -/
@[simp] theorem snd_onCache (f : EngineCache → Except Problem α × EngineCache) (s : Engine η) :
    (onCache id f s).2 = s.setCache id (f (s.cache id)).2 := rfl

/-- A step on a cache has the outcome of the step. -/
theorem fst_onCache (f : EngineCache → Except Problem α × EngineCache) (s : Engine η) :
    (onCache id f s).1 = (f (s.cache id)).1.mapError .ofProblem := rfl

/-- A step on a cache that succeeds, in one equation. -/
theorem onCache_of_eq_ok {f : EngineCache → Except Problem α × EngineCache} {a : α}
    {c : EngineCache} (h : f (s.cache id) = (.ok a, c)) :
    onCache id f s = (.ok a, s.setCache id c) := by
  simp only [onCache, h]
  rfl

/-- A cache that was set is there. -/
@[simp] theorem cache_setCache_self (s : Engine η) (id : CacheId) (c : EngineCache) :
    (s.setCache id c).cache id = c := by
  rw [cache_setCache, if_pos rfl]

/-- Setting a cache leaves the other ones. -/
theorem cache_setCache_of_ne (s : Engine η) (c : EngineCache) (h : id' ≠ id) :
    (s.setCache id c).cache id' = s.cache id' := by
  rw [cache_setCache, if_neg h]

/-- Of two changes of a cache the second one stays. -/
theorem setCache_setCache (s : Engine η) (id : CacheId) (c c' : EngineCache) :
    (s.setCache id c).setCache id c' = s.setCache id c' :=
  congrArg (fun caches => { s with caches := caches }) (s.caches.insert_insert id c c')

/-- A cache in memory is there. -/
theorem find?_caches {m : MemoryCache CacheKey Deposit} (hs : s.cache id = .memory m) :
    s.caches.find? id = some (.memory m) := by
  unfold cache at hs
  rcases hfind : s.caches.find? id with _ | c <;> rw [hfind] at hs
  · cases hs
  · exact congrArg some hs

/-- Different caches may be changed in any order, if one of them is in memory. -/
theorem setCache_comm {m : MemoryCache CacheKey Deposit} (hs : s.cache id = .memory m)
    (h : id ≠ id') (c c' : EngineCache) :
    (s.setCache id c).setCache id' c' = (s.setCache id' c').setCache id c := by
  have hid : id ∈ s.caches.keys :=
    OrderedMap.isSome_find?_iff.1 (by rw [find?_caches hs]; rfl)
  exact congrArg (fun caches => { s with caches := caches }) (OrderedMap.insert_comm h hid c c')

/-- Writing back what a cache in memory is changes nothing. -/
theorem setCache_of_cache {m : MemoryCache CacheKey Deposit} (hs : s.cache id = .memory m) :
    s.setCache id (.memory m) = s :=
  congrArg (fun caches => { s with caches := caches }) (OrderedMap.insert_find? (find?_caches hs))

/-- Setting a cache leaves the clock. -/
@[simp] theorem clock_setCache (s : Engine η) (id : CacheId) (c : EngineCache) :
    (s.setCache id c).clock = s.clock := rfl

/-- What a lookup finds is a value that has not expired. -/
theorem exists_of_cacheGet {v : Kept} (hc : (s.cache id).IsPlain)
    (h : (cacheGet id key s).1 = .ok (some v)) :
    ∃ e, (s.cache id).find? key.normal = some e ∧ e.isExpired s.clock = false ∧
      e.value.value = v := by
  change Except.mapError _ (Except.map _ ((s.cache id).get s.clock key.normal).1) = _ at h
  rcases hget : ((s.cache id).get s.clock key.normal).1 with p | d
  · rw [hget] at h
    cases h
  · rw [hget] at h
    obtain ⟨d', rfl, rfl⟩ := Option.map_eq_some_iff.1 (Except.ok.inj h)
    obtain ⟨e, hfind, hlive, rfl⟩ := Cache.exists_of_get hc hget
    exact ⟨e, hfind, hlive, rfl⟩

/-- A lookup depends on the cache and on the clock only. -/
theorem fst_cacheGet_congr {θ : Type} {t : Engine θ} (hcache : s.cache id = t.cache id)
    (hclock : s.clock = t.clock) (key : CacheKey) :
    (cacheGet id key s).1 = (cacheGet id key t).1 := by
  simp only [cacheGet, fst_onCache, hcache, hclock]

/-- A key that was looked up is accepted. -/
theorem accepts_of_cacheGet {found : Option Kept} (hc : (s.cache id).IsPlain)
    (h : (cacheGet id key s).1 = .ok found) : (s.cache id).Accepts key.normal := by
  change Except.mapError _ (Except.map _ ((s.cache id).get s.clock key.normal).1) = _ at h
  rcases hget : ((s.cache id).get s.clock key.normal).1 with p | d
  · rw [hget] at h
    cases h
  · exact Cache.accepts_of_get hc hget

/-- A lookup of a key that can be looked up succeeds. -/
theorem fst_cacheGet (hc : (s.cache id).IsPlain) (hkey : key.normal.unfit? = none) :
    (cacheGet id key s).1 = .ok ((((s.cache id).find? key.normal).filter
      fun e => !e.isExpired s.clock).map (·.value.value)) := by
  change Except.mapError _ (Except.map _ ((s.cache id).get s.clock key.normal).1) = _
  rw [Cache.fst_get hc hkey]
  exact congrArg Except.ok (Option.map_map _ _ _)

/-- A write under a key that is accepted succeeds. -/
theorem fst_cachePut_of_accepts (hkey : (s.cache id).Accepts key.normal) (v : Kept)
    (ttl : Option Float) : (cachePut id key (some v) ttl s).1 = .ok () := by
  rw [cachePut, fst_onCache, Option.map_some, Cache.fst_put_of_accepts hkey]
  rfl

/-- A write under a key that can be looked up succeeds. -/
theorem fst_cachePut (hc : (s.cache id).IsPlain) (hkey : key.normal.unfit? = none) (v : Kept)
    (ttl : Option Float) : (cachePut id key (some v) ttl s).1 = .ok () :=
  fst_cachePut_of_accepts (Cache.accepts_of_unfit? hc hkey) v ttl

/-- A write leaves the engine with that cache written. -/
theorem snd_cachePut (id : CacheId) (key : CacheKey) (v : Kept) (ttl : Option Float)
    (s : Engine η) : (cachePut id key (some v) ttl s).2 = s.setCache id
      ((s.cache id).put s.clock key.normal (some ((s.cache id).deposit key v)) ttl).2 := rfl

/-- **What was just written to memory** is found there, and lives as long as that says. -/
theorem exists_find?_cachePut {m : MemoryCache CacheKey Deposit} (hmemory : s.cache id = .memory m)
    (hkey : key.normal.unfit? = none) (v : Kept) (ttl : Option Float) :
    ∃ e, ((cachePut id key (some v) ttl s).2.cache id).find? key.normal = some e ∧
      e.value.value = v ∧ e.expiresAt = m.expiry s.clock ttl := by
  rw [snd_cachePut, cache_setCache_self, hmemory]
  obtain ⟨e, hfind, hvalue, hexpiry⟩ :=
    Cache.exists_find?_put hkey (EngineCache.deposit (.memory m) key v) ttl
  exact ⟨e, hfind, by rw [hvalue]; rfl, hexpiry⟩

/-- Dropping what satisfies a test that can be made on every label. -/
theorem cacheInvalidateWhere_spec (hc : (s.cache id).IsPlain)
    {test : CacheKey → Except Problem Bool}
    (h : ∀ k e, (s.cache id).find? k = some e → ∃ b, test e.value.label = .ok b) :
    ∃ dropped c, cacheInvalidateWhere id test s = (.ok dropped.length, s.setCache id c) ∧
      (s.cache id).Drops (fun _ d => test d.label) dropped c := by
  obtain ⟨dropped, c, heq, hdrops⟩ : ∃ dropped c, (s.cache id).invalidateWhere
      (fun _ d => test d.label) = (.ok dropped.length, c) ∧
        (s.cache id).Drops (fun _ d => test d.label) dropped c := Cache.invalidateWhere_spec hc h
  exact ⟨dropped, c, onCache_of_eq_ok heq, hdrops⟩

/-- Dropping everything. -/
theorem cacheClear_spec (hc : (s.cache id).IsPlain) :
    ∃ n c, cacheClear id s = (.ok n, s.setCache id c) ∧ c.Within (s.cache id) ∧
      ∀ k, c.find? k = none := by
  obtain ⟨n, c, heq, hspec⟩ := Cache.clear_spec hc
  exact ⟨n, c, onCache_of_eq_ok heq, hspec⟩

end Engine

end Gatehouse
