import Gatehouse.Proofs.Decimal.Order
import Gatehouse.Proofs.Resolver.Founded
import Mathlib.Data.Set.Function

/-!
# Lists from the cache

A resolver that answers for a secret without asking the host takes the list from its cache.  Main
statement: in every run it then answers with the list of the latest resolution of that very secret
for the same model, as long as this is valid and has not expired; and it does so, asking nobody,
whenever such a list is still there (`Resolver.resolveSecret_kept`).
-/

namespace Gatehouse

open Resolver (secretDigest)

variable {η : Type} {cast : Cast} {s s₀ : Engine (Chronicle η)} {id : CacheId}
  {e : CacheEntry Deposit} {r : Resolver} {h : Host (Chronicle η)}

/-- The secrets whose resolution was taken down. -/
def listedSecrets (events : List Event) : Set Text :=
  { y | ∃ r a expiresAt, .listed r y a expiresAt ∈ events }

/-- Whether the context of a resolution that begins now is live. -/
def Engine.IsLive (ctx : Option ContextId) (s : Engine η) : Prop :=
  (checkContext (s.opened ctx).1 (s.opened ctx).2).1 = .ok ()

/-- What stands under the key of a list is a list, and comes from the latest resolution. -/
theorem Engine.IsFounded.list_of_find? (hs : s.IsFounded cast) (hid : id ∈ cast.caches)
    {fingerprint digest : Text}
    (he : (s.cache id).find? (CacheKey.ofAcl (.text fingerprint) digest).normal = some e) :
    ∃ r y a later earlier, s.host.events = later ++ .listed r y a e.expiresAt :: earlier ∧
      y.IsSecret ∧ r.aclCache = id ∧ r.model.fingerprint = fingerprint ∧ secretDigest y = digest ∧
      e.value.value = .acl a ∧ ∀ ev ∈ later, ¬ ev.Ends id fingerprint digest := by
  cases hs.entry id hid _ e he with
  | policy _ _ _ _ key => exact absurd key.symm (CacheKey.normal_ofPolicy_ne_ofAcl _ _ _ _ _)
  | @list r y a later earlier history isSecret cache key value valid =>
    obtain ⟨hfingerprint, rfl⟩ := CacheKey.normal_ofAcl_eq_iff.1 key
    obtain rfl := Value.text.inj (Value.text_eq_of_same hfingerprint)
    exact ⟨r, y, a, later, earlier, history, isSecret, cache, rfl, rfl, value, valid⟩

namespace Resolver

/-- A list that was taken down under the digest of a secret was taken down for that secret. -/
theorem eq_of_listed {x y : Text} {a : AnyAcl} {expiresAt : Option Float} {events : List Event}
    (hdigests : Set.InjOn secretDigest (insert x (listedSecrets events)))
    (hmem : .listed r y a expiresAt ∈ events) (hdigest : secretDigest y = secretDigest x) :
    y = x := by
  have hlisted : y ∈ listedSecrets events := ⟨r, a, expiresAt, hmem⟩
  exact hdigests (.inr hlisted) (.inl rfl) hdigest

/-- A resolution that answers without asking for the token found its answer in the cache. -/
theorem exists_of_resolveSecret (hs : s.IsFounded cast) (hr : r ∈ cast.members)
    (hlists : r.aclCache ∈ cast.caches) (hh : h.GoesBySteps cast) {x : Text}
    {ctx : Option ContextId} {k : Kept} {t : Engine (Chronicle η)}
    (hresolve : resolveSecret (r.provision h.noting) r (.text x) ctx s = (.ok k, t))
    (hasked : t.host.asked = s.host.asked) :
    ∃ e, (s.cache r.aclCache).find?
        (CacheKey.ofAcl r.model.fingerprint (secretDigest x)).normal = some e ∧
      e.isExpired s.clock = false ∧ e.value.value = k := by
  rw [resolveSecret, withContext_eq, Prod.mk.injEq] at hresolve
  obtain ⟨hk, rfl⟩ := hresolve
  generalize ho : resolveSecretUnder (r.provision h.noting) r (s.opened ctx).1 (.text x)
    (s.opened ctx).2 = o at hk hasked
  rcases resolveSecretUnder_cases hh hr ho with
    ⟨y, kept, hy, -, hkept, hget⟩ | ⟨y, acl, t, -, -, -, hmore, -, hput⟩ | ⟨⟨e, he⟩, -⟩
  · obtain rfl := Value.text.inj hy
    obtain rfl := Except.ok.inj (hkept.symm.trans hk)
    have hplain : ((s.opened ctx).2.cache r.aclCache).IsPlain := by
      rw [Engine.cache_opened]
      exact hs.plain _ hlists
    obtain ⟨e, hfind, hlive, hvalue⟩ := Engine.exists_of_cacheGet hplain (congrArg Prod.fst hget)
    rw [Engine.cache_opened] at hfind
    rw [Engine.clock_opened] at hlive
    exact ⟨e, hfind, hlive, hvalue⟩
  · -- the host was asked for the token
    rw [Engine.host_opened] at hmore
    have hhost : o.2.host = t.host := by rw [hput]; rfl
    rw [hhost] at hasked
    exact absurd hasked (Nat.ne_of_gt hmore)
  · rw [he] at hk
    cases hk

/-- A secret whose list is in the cache is answered for with it, and nobody is asked. -/
theorem resolveSecret_of_find? (hs : s.IsFounded cast) (hlists : r.aclCache ∈ cast.caches)
    {x : Text} (hx : x.IsSecret) {ctx : Option ContextId} {a : AnyAcl}
    (hfind : (s.cache r.aclCache).find?
      (CacheKey.ofAcl r.model.fingerprint (secretDigest x)).normal = some e)
    (hlive : e.isExpired s.clock = false) (ha : e.value.value = .acl a) (hctx : s.IsLive ctx) :
    ∃ t, t.host = s.host ∧ ∀ h' : Host (Chronicle η),
      resolveSecret (r.provision h') r (.text x) ctx s = (.ok (.acl a), t) := by
  let key := CacheKey.ofAcl r.model.fingerprint (secretDigest x)
  let t := (Engine.cacheGet r.aclCache key (s.opened ctx).2).2
  refine ⟨{ t with running := s.running }, Engine.host_opened ctx s, fun h' => ?_⟩
  have hplain : ((s.opened ctx).2.cache r.aclCache).IsPlain := by
    rw [Engine.cache_opened]
    exact hs.plain _ hlists
  have hget : (Engine.cacheGet r.aclCache key (s.opened ctx).2).1 = .ok (some (.acl a)) := by
    rw [Engine.fst_cacheGet hplain (CacheKey.unfit?_ofAcl _ _), Engine.cache_opened,
      Engine.clock_opened, hfind]
    simp [Option.filter_some, hlive, ha]
  have hunder : resolveSecretUnder (r.provision h') r (s.opened ctx).1 (.text x)
      (s.opened ctx).2 = (.ok (.acl a), t) := by
    unfold resolveSecretUnder
    rw [Action.bind_of_ok (Engine.checkContext_eq_ok _ hctx)]
    dsimp only
    rw [if_neg hx.1, Text.unencodable?_eq_none_iff.2 hx.2]
    exact Action.bind_of_ok (Prod.ext hget rfl)
  rw [resolveSecret, withContext_eq, hunder]

/-- **A kept list is the right one.**  Take any run of resolvers that share caches which only they
write.  Whenever a resolver answers for a secret without asking the host for the token, it answers
with the list that was taken down when the same secret was last resolved anew, by a resolver with
the same cache and a model of the same fingerprint; since then the list was neither dropped nor
cleared, and it has not expired.  Conversely, while such a list is there and has not expired, the
secret is answered for with it under every live context, whatever the collaborators would do. -/
theorem resolveSecret_kept (hs₀ : s₀.IsFresh cast) (hrun : Runs cast s₀ s) (hr : r ∈ cast.members)
    (hlists : r.aclCache ∈ cast.caches) (hh : h.KeepsTo cast) (x : Text) (ctx : Option ContextId)
    (hdigests : Set.InjOn secretDigest (insert x (listedSecrets s.host.events))) :
    (∀ k t, resolveSecret (r.provision h.noting) r (.text x) ctx s = (.ok k, t) →
      t.host.asked = s.host.asked →
        ∃ r' a expiresAt later earlier, k = .acl a ∧
          s.host.events = later ++ .listed r' x a expiresAt :: earlier ∧
          r'.aclCache = r.aclCache ∧ r'.model.fingerprint = r.model.fingerprint ∧
          (∀ ev ∈ later, ¬ ev.Ends r.aclCache r.model.fingerprint (secretDigest x)) ∧
          ∀ u, expiresAt = some u → ¬ u ≤ s.clock ∧
            (u.isNaN = false → s.clock.isNaN = false → s.clock < u)) ∧
      ∀ e, (s.cache r.aclCache).find?
          (CacheKey.ofAcl r.model.fingerprint (secretDigest x)).normal = some e →
        e.isExpired s.clock = false → s.IsLive ctx →
          ∃ a t, e.value.value = .acl a ∧ t.host = s.host ∧ ∀ h' : Host (Chronicle η),
            resolveSecret (r.provision h') r (.text x) ctx s = (.ok (.acl a), t) := by
  have hs : s.IsFounded cast := hrun.isFounded hs₀
  have hmem : ∀ {r' y a u later earlier},
      s.host.events = later ++ Event.listed r' y a u :: earlier →
      Event.listed r' y a u ∈ s.host.events := fun h => by simp [h]
  constructor
  · intro k t hresolve hasked
    obtain ⟨e, hfind, hlive, hvalue⟩ :=
      exists_of_resolveSecret hs hr hlists hh.goesBySteps hresolve hasked
    obtain ⟨r', y, a, later, earlier, hevents, -, hcache, hmodel, hdigest, ha, hvalid⟩ :=
      hs.list_of_find? hlists hfind
    obtain rfl := eq_of_listed hdigests (hmem hevents) hdigest
    refine ⟨r', a, e.expiresAt, later, earlier, hvalue.symm.trans ha, hevents, hcache, hmodel,
      hvalid, fun u hu => ?_⟩
    have hnot : ¬ u ≤ s.clock := by simpa [CacheEntry.isExpired, hu] using hlive
    exact ⟨hnot, fun hu' hclock => Decimal.lt_of_not_le hu' hclock hnot⟩
  · intro e hfind hlive hctx
    obtain ⟨r', y, a, later, earlier, hevents, hy, -, -, hdigest, ha, -⟩ :=
      hs.list_of_find? hlists hfind
    obtain rfl := eq_of_listed hdigests (hmem hevents) hdigest
    obtain ⟨t, hhost, hresolve⟩ := resolveSecret_of_find? hs hlists hy hfind hlive ha hctx
    exact ⟨a, t, ha, hhost, hresolve⟩

/-- A doorman who keeps lists forever. -/
def doorman : Resolver := ⟨⟨.empty, ∅, "door"⟩, 0, 1, none, none⟩

/-- A house in which every secret is bound to no policy at all. -/
def openHouse : Host (Chronicle Unit) where
  token _ _ s := (.ok (.token ⟨[], none, ""⟩), s)
  policy _ _ s := (.ok .nothing, s)

/-- The doorman and his cache of lists. -/
def doorway : Cast := ⟨{doorman}, {1}⟩

/-- Before anybody came, the cache is empty. -/
def beforeGuests : Engine (Chronicle Unit) :=
  (Engine.start ⟨(), 0, []⟩).setCache 1 (.memory (.create none 10))

/-- After the first guest. -/
def afterGuest : Engine (Chronicle Unit) :=
  (Call.secret (.text "key") none).exec openHouse doorman beforeGuests

/-- The second guest with the same key gets what the first one got, and nobody is asked. -/
theorem resolveSecret_afterGuest : ∃ a t,
    resolveSecret (doorman.provision openHouse.noting) doorman (.text "key") none afterGuest =
        (.ok (.acl a), t) ∧ t.host = afterGuest.host ∧
      ∃ expiresAt later earlier,
        afterGuest.host.events = later ++ .listed doorman "key" a expiresAt :: earlier := by
  have hfresh : beforeGuests.IsFresh doorway :=
    ⟨by rintro _ rfl; exact trivial, by rintro _ rfl k; rfl⟩
  have hhost : openHouse.KeepsTo doorway := ⟨fun _ _ s => .done s, fun _ _ s => .done s⟩
  have hrun : Runs doorway beforeGuests afterGuest :=
    .call (.done _) rfl hhost.token hhost.policy _
  have hevents : afterGuest.host.events = [.listed doorman "key" (.strict ⟨∅, [], none⟩) none] := rfl
  have hdigests : Set.InjOn secretDigest (insert ("key" : Text) (listedSecrets afterGuest.host.events)) := by
    have hkey : ∀ y ∈ insert ("key" : Text) (listedSecrets afterGuest.host.events), y = "key" := by
      rintro y (rfl | ⟨r, a, expiresAt, hmem⟩)
      · rfl
      · rw [hevents, List.mem_singleton] at hmem
        cases hmem
        rfl
    exact fun y hy z hz _ => (hkey y hy).trans (hkey z hz).symm
  obtain ⟨hright, hthere⟩ := resolveSecret_kept hfresh hrun rfl rfl hhost "key" none hdigests
  let key := CacheKey.ofAcl doorman.model.fingerprint (secretDigest "key")
  let d : Deposit := ⟨key, key, .acl (.strict ⟨∅, [], none⟩)⟩
  obtain ⟨e, hfind, -, hexpiry⟩ :
      ∃ e, (afterGuest.cache 1).find? key.normal = some e ∧ e.value = d ∧ e.expiresAt = none :=
    Cache.exists_find?_put (CacheKey.unfit?_ofAcl _ _) d none
  have hlive : e.isExpired afterGuest.clock = false := by rw [CacheEntry.isExpired, hexpiry]
  obtain ⟨a, t, -, hsame, hresolve⟩ := hthere e hfind hlive rfl
  have hasked : t.host.asked = afterGuest.host.asked := by rw [hsame]
  obtain ⟨r, a', expiresAt, later, earlier, ha, hlisted, -⟩ := hright _ _ (hresolve _) hasked
  obtain rfl := Kept.acl.inj ha
  have hr : r = doorman := by
    have hmem : Event.listed r "key" a expiresAt ∈ afterGuest.host.events := by simp [hlisted]
    rw [hevents, List.mem_singleton] at hmem
    cases hmem
    rfl
  exact ⟨a, t, hresolve _, hsame, expiresAt, later, earlier, hr ▸ hlisted⟩

end Resolver

end Gatehouse
