import Gatehouse.Proofs.Resolver.Undisturbed

/-!
# What a resolution stores

Failures can come at any point of a resolution, after some policies were compiled already; nothing is
stored then.  Once all is gathered, nothing can fail any more: the caches accept every write
(`Engine.storeEach_spec`).  Main statement: a resolution that fails stores nothing, and one that
succeeds stores what it compiled, and the list of a secret that was not in the cache
(`Request.resolve_stores`).
-/

namespace Gatehouse

open Relation (ReflTransGen)

variable {η : Type}

/-! ### Writes -/

/-- An entry comes from a write. -/
structure Write.Wrote (st : Write) (u : Engine η) (id : CacheId) (k : CacheKey)
    (e : CacheEntry Deposit) : Prop where
  /-- It is in the cache that was written. -/
  cache : st.cache = id
  /-- It is under the key that was written. -/
  key : k = st.key.normal
  /-- It has the value that was written. -/
  value : e.value.value = st.value
  /-- It lives as long as the writer said. -/
  expiresAt : e.expiresAt = (u.cache id).expiry u.clock st.ttl

/-- What a write leaves of a plain cache. -/
structure Write.Leaves (st : Write) (u v : Engine η) (id : CacheId) : Prop where
  /-- The cache is plain. -/
  plain : (v.cache id).IsPlain
  /-- It accepts the same keys. -/
  accepts : ∀ key, (v.cache id).Accepts key ↔ (u.cache id).Accepts key
  /-- It gives the same lifetimes. -/
  expiry : ∀ now ttl, (v.cache id).expiry now ttl = (u.cache id).expiry now ttl
  /-- Its entries come from the write or were there. -/
  entries : ∀ k e, (v.cache id).find? k = some e → st.Wrote u id k e ∨ (u.cache id).find? k = some e

namespace Engine

variable {u : Engine η}

/-- **A write under a key that is accepted.** -/
theorem cachePut_spec {st : Write} (haccepts : (u.cache st.cache).Accepts st.key.normal) :
    ∃ v, cachePut st.cache st.key (some st.value) st.ttl u = (.ok (), v) ∧ v.clock = u.clock ∧
      ∀ id, (u.cache id).IsPlain → st.Leaves u v id := by
  let c := (u.cache st.cache).put u.clock st.key.normal
    (some ((u.cache st.cache).deposit st.key st.value)) st.ttl
  refine ⟨u.setCache st.cache c.2, Prod.ext (fst_cachePut_of_accepts haccepts _ _)
    (snd_cachePut _ _ _ _ u), rfl, fun id hplain => ?_⟩
  by_cases hid : id = st.cache
  · subst hid
    have hcache := cache_setCache_self u st.cache c.2
    refine ⟨?_, fun key => ?_, fun now ttl => ?_, fun k e hfind => ?_⟩
    · rw [hcache]
      exact Cache.isPlain_put hplain _ _ _ _
    · rw [hcache]
      exact Cache.accepts_put_iff hplain _
    · rw [hcache]
      exact Cache.expiry_put hplain _ _ _
    · rw [hcache] at hfind
      rcases Cache.find?_put hplain hfind with ⟨hk, -, hvalue, hexpires⟩ | ⟨hold, -⟩
      · exact .inl ⟨rfl, hk, by rw [hvalue]; rfl, hexpires⟩
      · exact .inr hold
  · have hcache := cache_setCache_of_ne u c.2 hid
    refine ⟨hcache ▸ hplain, fun key => by rw [hcache], fun now ttl => by rw [hcache],
      fun k e hfind => .inr ?_⟩
    rw [← hcache]
    exact hfind

/-- **Writes under keys that are accepted succeed,** and every entry that is there afterwards comes
from one of them or was there. -/
theorem storeEach_spec {l : List Write} (hplain : ∀ st ∈ l, (u.cache st.cache).IsPlain)
    (haccepts : ∀ st ∈ l, (u.cache st.cache).Accepts st.key.normal) :
    ∃ v, storeEach l u = (.ok (), v) ∧ ∀ id, (u.cache id).IsPlain → ∀ k e,
      (v.cache id).find? k = some e →
        (∃ st ∈ l, st.Wrote u id k e) ∨ (u.cache id).find? k = some e := by
  induction l generalizing u with
  | nil => exact ⟨u, rfl, fun _ _ _ _ hfind => .inr hfind⟩
  | cons st rest ih =>
    obtain ⟨hst, hrest⟩ := List.forall_mem_cons.1 hplain
    obtain ⟨hst', hrest'⟩ := List.forall_mem_cons.1 haccepts
    obtain ⟨u₁, hput, hclock, hleaves⟩ := cachePut_spec hst'
    obtain ⟨v, hstore, hentries⟩ := ih (fun st' hmem => (hleaves _ (hrest st' hmem)).plain)
      fun st' hmem => ((hleaves _ (hrest st' hmem)).accepts _).2 (hrest' st' hmem)
    refine ⟨v, (Action.bind_of_ok hput).trans hstore, fun id hid k e hfind => ?_⟩
    rcases hentries id (hleaves id hid).plain k e hfind with ⟨st', hmem, hwrote⟩ | hfind
    · have hexpires := hwrote.expiresAt
      rw [(hleaves id hid).expiry, hclock] at hexpires
      exact .inl ⟨st', List.mem_cons_of_mem _ hmem, hwrote.cache, hwrote.key, hwrote.value, hexpires⟩
    · exact ((hleaves id hid).entries k e hfind).imp_left fun hwrote =>
        ⟨st, List.mem_cons_self, hwrote⟩

end Engine

/-! ### Resolutions -/

/-- **Once all is gathered, nothing fails:** with a diary or without one, everything is written. -/
theorem Action.thenStore_of_accepted {α : Type} {x : Action (Diary η) (List Write × α)}
    {g : List Write × α} {s u : Engine (Diary η)} (hx : x s = (.ok g, u))
    (hplain : ∀ st ∈ g.1, (u.cache st.cache).IsPlain)
    (haccepts : ∀ st ∈ g.1, (u.cache st.cache).Accepts st.key.normal) :
    ∃ t, x.thenStore s = (.ok g.2, t) ∧ t.host = u.host ∧
      Engine.storeEach g.1 u.plain = (.ok (), t.plain) ∧
      ∀ id, (u.cache id).IsPlain → ∀ k e, (t.cache id).find? k = some e →
        (∃ st ∈ g.1, st.Wrote u.plain id k e) ∨ (u.cache id).find? k = some e := by
  obtain ⟨v, hstore, hentries⟩ := Engine.storeEach_spec (u := u.plain) hplain haccepts
  obtain ⟨hok, rfl⟩ := Prod.mk.inj ((Details.storeEach g.1 u).symm.trans hstore)
  have hwritten : Engine.storeEach g.1 u = (.ok (), (Engine.storeEach g.1 u).2) := Prod.ext hok rfl
  exact ⟨(Engine.storeEach g.1 u).2, (bind_of_ok hx).trans (bind_of_ok hwritten),
    Engine.host_storeEach g.1 u, hstore, hentries⟩

/-- **A failed resolution stores nothing.**  Whatever the error, every entry that is in a cache of the
resolver afterwards was there before, with the same value and the same expiry, and what vanished was
found expired by a lookup.  A resolution that succeeds does the same up to the moment when all is
gathered.  Then it writes, under different keys, each policy that was compiled in the call, and
nothing for those that were found in the cache, and then the list that it answers with, if a secret
was resolved whose list was not found; none of these writes fails.  Whatever is in a cache afterwards
was there at that moment or comes from one of these writes. -/
theorem Request.resolve_stores {h : Host η} {r : Resolver} (hh : h.LeavesAlone r) {s : Engine η}
    (hs : ∀ id, r.Uses id → (s.cache id).IsPlain) (ctx : Option ContextId) (q : Request) :
    (∀ e t, q.resolve (r.provision h) r ctx s = (.error e, t) → ∀ id, r.Uses id →
      OnlyExpires r q s (q.deeds (r.provision h) r ctx s) t id) ∧
      ∀ k t, q.resolve (r.provision h) r ctx s = (.ok k, t) → ∃ u new v,
        (∀ id, r.Uses id → OnlyExpires r q s (q.deeds (r.provision h) r ctx s) u id) ∧
        List.Forall₂ (fun m st => st.IsOf r (q.deeds (r.provision h) r ctx s) m)
          ((q.deeds (r.provision h) r ctx s).filterMap Deed.made?) new ∧
        (new ++ q.listStores r s k).Pairwise (fun st st' => st.key.normal ≠ st'.key.normal) ∧
        Engine.storeEach (new ++ q.listStores r s k) u = (.ok (), v) ∧
        t = { v with running := s.running } ∧
        ∀ id, r.Uses id → ∀ key e, (t.cache id).find? key = some e →
          (∃ st ∈ new ++ q.listStores r s k, st.Wrote u id key e) ∨
            (u.cache id).find? key = some e := by
  obtain ⟨o, t, hrun, hresolve, hdeeds⟩ := q.resolve_eq_diary (r.provision h) r ctx s
  let s₁ := (s.opened ctx).2.withDiary []
  have hbegins : Request.Begins r s s₁ :=
    ⟨fun id _ => Engine.cache_opened ctx s id, Engine.clock_opened ctx s, rfl⟩
  rcases hgather : q.gather (r.provision h).diary r (s.opened ctx).1 s₁ with ⟨e | g, u⟩ <;>
    obtain ⟨hsteps, hgathered⟩ :=
      (Request.meets_gather_undisturbed hh hs q).of_eq hbegins hgather
  · obtain ⟨rfl, rfl⟩ := Prod.mk.inj ((Action.bind_of_error hgather).symm.trans hrun)
    have hundisturbed : Undisturbed r q s u := Engine.keeping_of_reflTransGen
      (ReflTransGen.mono (fun _ _ hstep => hstep.undisturbed) _ _ hsteps) hbegins.made.1
    refine ⟨fun e' t' hresult id hid => ?_, fun k t' hresult => ?_⟩
    · obtain rfl := congrArg Prod.snd (hresolve.symm.trans hresult)
      exact (hundisturbed id hid).1.mono (hdeeds ▸ List.subset_reverse.2 (List.Subset.refl _)) rfl
    · cases hresolve.symm.trans hresult
  · obtain ⟨hundisturbed, ⟨new, hstores, hnew⟩, hkeys, haccepted⟩ := hgathered g rfl
    obtain ⟨t', hstored, hhost, hstore, hentries⟩ := Action.thenStore_of_accepted hgather
      (fun st hst => hundisturbed.isPlain hs (haccepted st hst).1)
      fun st hst => ((hundisturbed _ (haccepted st hst).1).2 _).2 (haccepted st hst).2
    obtain ⟨rfl, rfl⟩ := Prod.mk.inj (hstored.symm.trans hrun)
    refine ⟨fun e t hresult => (by cases hresolve.symm.trans hresult), fun k t hresult => ?_⟩
    obtain ⟨hk, rfl⟩ := Prod.mk.inj (hresolve.symm.trans hresult)
    obtain rfl := Except.ok.inj hk
    have hsub : u.host.deeds ⊆ q.deeds (r.provision h) r ctx s := by
      rw [hdeeds, hhost]
      exact List.subset_reverse.2 (List.Subset.refl _)
    have hmade : (q.deeds (r.provision h) r ctx s).filterMap Deed.made? = madeIn u.host.deeds := by
      rw [hdeeds, hhost, List.filterMap_reverse]
      rfl
    rw [hstores] at hkeys hstore hentries
    rw [hmade]
    exact ⟨u.plain, new, t'.plain, fun id hid => (hundisturbed id hid).1.mono hsub rfl,
      hnew.imp fun _ _ hst => hst.mono hsub, hkeys, hstore, rfl,
      fun id hid => hentries id (hundisturbed.isPlain hs hid)⟩

/-- A porter for whom nothing is granted under any name. -/
def porter : Host Unit where
  token _ _ s := (.ok .nothing, s)
  policy _ _ s := (.ok (.policy ⟨"nothing", [], .text "1"⟩), s)

/-- An engine with two empty caches. -/
def evening : Engine Unit :=
  ((Engine.start ()).setCache 0 (.memory (.create none 8))).setCache 1 (.memory (.create none 8))

/-- A porter who has never heard of any name but one. -/
def newcomer : Host Unit where
  token _ _ s := (.ok .nothing, s)
  policy _ name s := (.ok (if name.same "a" then .policy ⟨"nothing", [], .text "1"⟩ else .nothing), s)

/-- Where the second of two names is not known, the policy of the first was compiled, and neither
cache has anything afterwards.  A policy that is asked for twice is compiled and written once. -/
theorem Request.resolve_porter :
    (∃ e t m, (policies (.list [.text "a", .text "b"])).resolve (sentry.provision newcomer) sentry
        none evening = (.error e, t) ∧
      ((policies (.list [.text "a", .text "b"])).deeds (sentry.provision newcomer) sentry none
        evening).filterMap Deed.made? = [m] ∧
      ∀ id, sentry.Uses id → ∀ key, (t.cache id).find? key = none) ∧
    ∃ k t u v st c,
      (policies (.list [.text "a", .text "a"])).resolve (sentry.provision porter) sentry none
        evening = (.ok k, t) ∧
      st.IsOf sentry ((policies (.list [.text "a", .text "a"])).deeds (sentry.provision porter)
        sentry none evening) (.ofPolicy ⟨"nothing", [], .text "1"⟩, c) ∧
      Engine.storeEach [st] u = (.ok (), v) ∧ t = { v with running := [] } := by
  have hplain : ∀ id, sentry.Uses id → (evening.cache id).IsPlain := by
    rintro id (rfl | rfl) <;> exact trivial
  have hempty : ∀ id, sentry.Uses id → ∀ key, (evening.cache id).find? key = none := by
    rintro id (rfl | rfl) key <;> rfl
  constructor
  · let q : Request := .policies (.list [.text "a", .text "b"])
    obtain ⟨e, t, hfailed⟩ : ∃ e t, q.resolve (sentry.provision newcomer) sentry none evening =
        (.error e, t) := ⟨_, _, rfl⟩
    obtain ⟨m, hmade⟩ : ∃ m, (q.deeds (sentry.provision newcomer) sentry none evening).filterMap
        Deed.made? = [m] := ⟨_, rfl⟩
    refine ⟨e, t, m, hfailed, hmade, fun id hid key => ?_⟩
    have hkept := ((Request.resolve_stores (h := newcomer) (r := sentry)
      ⟨fun _ _ _ _ _ => rfl, fun _ _ _ _ _ => rfl⟩ hplain none q).1 e t hfailed id hid).within
    cases hfind : (t.cache id).find? key with
    | none => rfl
    | some entry =>
      obtain ⟨before, hbefore, -⟩ := hkept.entries key entry hfind
      cases (hempty id hid key).symm.trans hbefore
  · let q : Request := .policies (.list [.text "a", .text "a"])
    obtain ⟨k, t, hok⟩ : ∃ k t, q.resolve (sentry.provision porter) sentry none evening =
        (.ok k, t) := ⟨_, _, rfl⟩
    obtain ⟨c, hmade⟩ : ∃ c, (q.deeds (sentry.provision porter) sentry none evening).filterMap
        Deed.made? = [(.ofPolicy ⟨"nothing", [], .text "1"⟩, c)] := ⟨_, rfl⟩
    obtain ⟨u, new, v, -, hnew, -, hstore, hend, -⟩ := (Request.resolve_stores
      (h := porter) (r := sentry) ⟨fun _ _ _ _ _ => rfl, fun _ _ _ _ _ => rfl⟩ hplain none
        q).2 k t hok
    rw [hmade] at hnew
    obtain ⟨st, _, hst, hnil, rfl⟩ := List.forall₂_cons_left_iff.1 hnew
    obtain rfl := List.forall₂_nil_left_iff.1 hnil
    exact ⟨k, t, u, v, st, c, hok, hst, hstore, hend⟩

end Gatehouse
