import Gatehouse.Proofs.Cache.Key
import Gatehouse.Proofs.Resolver.Steps

/-!
# What stands behind a cache entry

In a run every entry of a cache goes back to something that happened (`Founded`): a compiled policy
to a policy that the host answered with, which compiles to it against the model of one of the
resolvers; a list to the resolution of the secret that was taken down, and nothing that was taken
down since then ended its validity.  Main statement: all entries of the caches of a cast are founded
throughout a run that begins with empty caches (`Runs.isFounded`).
-/

namespace Gatehouse

open Relation (ReflTransGen)

open Resolver (secretDigest)

/-- Whether an event does not end the validity of the list under a key of a cache. -/
def Event.Spares (id : CacheId) (k : CacheKey) (ev : Event) : Prop :=
  ∀ fingerprint digest, k = (CacheKey.ofAcl (.text fingerprint) digest).normal →
    ¬ ev.Ends id fingerprint digest

/-- **What stands behind an entry** under a key of a cache. -/
inductive Founded (cast : Cast) (events : List Event) (id : CacheId) (k : CacheKey)
    (e : CacheEntry Deposit) : Prop where
  /-- A compiled policy comes from a policy that the host answered with. -/
  | policy {r : Resolver} {name version : Value} {o : OfferedPolicy} {c : AnyCompiled}
    (member : r ∈ cast.members) (offered : .answered name o ∈ events)
    (versioned : o.cacheVersion = .ok version) (compiled : o.compile r.model = .ok c)
    (key : k = (CacheKey.ofPolicy name version r.model.fingerprint).normal)
    (value : e.value.value = .policy c)
  /-- A list comes from the latest resolution of a secret, and is still valid. -/
  | list {r : Resolver} {secret : Text} {a : AnyAcl} {later earlier : List Event}
    (history : events = later ++ .listed r secret a e.expiresAt :: earlier)
    (isSecret : secret.IsSecret) (cache : r.aclCache = id)
    (key : k = (CacheKey.ofAcl r.model.fingerprint (secretDigest secret)).normal)
    (value : e.value.value = .acl a)
    (valid : ∀ ev ∈ later, ¬ ev.Ends id r.model.fingerprint (secretDigest secret))

variable {η : Type} {cast : Cast} {s t : Engine (Chronicle η)} {id : CacheId}
  {k : CacheKey} {e e' : CacheEntry Deposit} {events new : List Event}

/-- An entry stays founded while events spare it. -/
theorem Founded.mono (h : Founded cast events id k e) (halike : e'.Alike e)
    (hnew : ∀ ev ∈ new, ev.Spares id k) : Founded cast (new ++ events) id k e' := by
  cases h with
  | policy member offered versioned compiled key value =>
    exact .policy member (List.mem_append_right _ offered) versioned compiled key
      (by rw [halike.value, value])
  | @list r secret a later earlier history isSecret cache key value valid =>
    have hhistory : new ++ events =
        (new ++ later) ++ .listed r secret a e'.expiresAt :: earlier := by
      rw [history, halike.expiresAt, List.append_assoc]
    refine .list hhistory isSecret cache key (by rw [halike.value, value]) fun ev hev => ?_
    rcases List.mem_append.1 hev with hev | hev
    · exact hnew ev hev _ _ key
    · exact valid ev hev

namespace Engine

/-- All entries of the caches of a cast are founded. -/
structure IsFounded (cast : Cast) (s : Engine (Chronicle η)) : Prop where
  /-- The caches are plain. -/
  plain : ∀ id, id ∈ cast.caches → (s.cache id).IsPlain
  /-- Every label is a key of its entry. -/
  label : ∀ id, id ∈ cast.caches → ∀ k e, (s.cache id).find? k = some e → e.value.label.normal = k
  /-- Something stands behind every entry. -/
  entry : ∀ id, id ∈ cast.caches → ∀ k e, (s.cache id).find? k = some e →
    Founded cast s.host.events id k e

/-- Replacing a cache of a cast by one that keeps nothing new. -/
theorem within_setCache {c : EngineCache} (hc : id ∈ cast.caches → c.Within (s.cache id)) :
    ∀ id', id' ∈ cast.caches → ((s.setCache id c).cache id').Within (s.cache id') := by
  intro id' hid'
  by_cases hne : id' = id
  · subst hne
    rw [cache_setCache_self]
    exact hc hid'
  · rw [cache_setCache_of_ne s c hne]
    exact .refl _

/-- **Entries are dropped:** nothing new is kept, and what is taken down spares what is left. -/
structure Forgets (cast : Cast) (s t : Engine (Chronicle η)) : Prop where
  /-- Nothing new is kept. -/
  caches : ∀ id, id ∈ cast.caches → (t.cache id).Within (s.cache id)
  /-- What is taken down spares what is left. -/
  host : ∃ new, t.host = { s.host with events := new ++ s.host.events } ∧
    ∀ id, id ∈ cast.caches → ∀ k e, (t.cache id).find? k = some e → ∀ ev ∈ new, ev.Spares id k

/-- Dropping entries without a word spares what is left. -/
theorem Forgets.of_host (hcaches : ∀ id, id ∈ cast.caches → (t.cache id).Within (s.cache id))
    (hhost : t.host = s.host) : s.Forgets cast t :=
  ⟨hcaches, [], hhost, fun _ _ _ _ _ _ hev => nomatch hev⟩

/-- Dropping entries and taking that down spares what is left, if what is taken down does. -/
theorem Forgets.note (hcaches : ∀ id, id ∈ cast.caches → (t.cache id).Within (s.cache id))
    (hhost : t.host = s.host) {ev : Event} (hev : ∀ id, id ∈ cast.caches → ∀ k e,
      (t.cache id).find? k = some e → ev.Spares id k) : s.Forgets cast (t.note ev) := by
  refine ⟨hcaches, [ev], by rw [← hhost]; rfl, fun id hid k e he ev' hev' => ?_⟩
  obtain rfl := List.mem_singleton.1 hev'
  exact hev id hid k e he

/-- With empty caches nothing is unfounded. -/
theorem IsFresh.isFounded (h : s.IsFresh cast) : s.IsFounded cast where
  plain := h.plain
  label id hid k e he := by rw [h.empty id hid k] at he; cases he
  entry id hid k e he := by rw [h.empty id hid k] at he; cases he

namespace IsFounded

/-- What adds no entry leaves all of them founded if what is taken down spares them. -/
theorem of_within (h : s.IsFounded cast)
    (hcaches : ∀ id, id ∈ cast.caches → (t.cache id).Within (s.cache id))
    (hevents : t.host.events = new ++ s.host.events)
    (hnew : ∀ id, id ∈ cast.caches → ∀ k e, (t.cache id).find? k = some e →
      ∀ ev ∈ new, ev.Spares id k) : t.IsFounded cast where
  plain id hid := (hcaches id hid).plain (h.plain id hid)
  label id hid k e' he' := by
    obtain ⟨e, he, halike⟩ := (hcaches id hid).entries k e' he'
    rw [halike.value]
    exact h.label id hid k e he
  entry id hid k e' he' := by
    obtain ⟨e, he, halike⟩ := (hcaches id hid).entries k e' he'
    rw [hevents]
    exact (h.entry id hid k e he).mono halike (hnew id hid k e' he')

/-- Dropping entries leaves the others founded. -/
theorem of_forgets (h : s.IsFounded cast) (hforgets : s.Forgets cast t) : t.IsFounded cast := by
  obtain ⟨new, hhost, hspares⟩ := hforgets.host
  exact h.of_within hforgets.caches (by rw [hhost]) hspares

/-- What is taken down leaves all entries founded if it spares them. -/
theorem note (h : s.IsFounded cast) {ev : Event} (hev : ∀ id, id ∈ cast.caches → ∀ k e,
    (s.cache id).find? k = some e → ev.Spares id k) : (s.note ev).IsFounded cast := by
  refine h.of_within (fun _ _ => .refl _) List.singleton_append.symm fun id hid k e he ev' hev' => ?_
  obtain rfl := List.mem_singleton.1 hev'
  exact hev id hid k e he

/-- **Replacing a cache leaves everything founded,** unless the cast has it and it keeps anything
new. -/
theorem setCache (h : s.IsFounded cast) {c : EngineCache}
    (hc : id ∈ cast.caches → c.Within (s.cache id)) : (s.setCache id c).IsFounded cast :=
  h.of_within (within_setCache hc) (List.nil_append _).symm fun _ _ _ _ _ _ hev => nomatch hev

/-- **A write leaves all entries founded** if the new one is, and if what is taken down with it
spares the others. -/
theorem put (h : s.IsFounded cast) (hid : id ∈ cast.caches) {key : CacheKey} {v : Kept}
    {ttl : Option Float} (hcaches : t.caches = (cachePut id key (some v) ttl s).2.caches)
    (hevents : t.host.events = new ++ s.host.events)
    (hfounded : ∀ e : CacheEntry Deposit, e.value.value = v →
      e.expiresAt = (s.cache id).expiry s.clock ttl →
      Founded cast (new ++ s.host.events) id key.normal e)
    (hnew : ∀ id' k, id' ≠ id ∨ (key.normal.unfit? = none → k ≠ key.normal) →
      ∀ ev ∈ new, ev.Spares id' k) : t.IsFounded cast := by
  have hplain := h.plain id hid
  have hcache : ∀ id', t.cache id' = if id' = id then ((s.cache id).put s.clock key.normal
      (some ((s.cache id).deposit key v)) ttl).2 else s.cache id' := by
    intro id'
    rw [cache, hcaches]
    exact cache_setCache s id id' _
  have hself : t.cache id = ((s.cache id).put s.clock key.normal
      (some ((s.cache id).deposit key v)) ttl).2 := by rw [hcache, if_pos rfl]
  have hother : ∀ id', id' ≠ id → t.cache id' = s.cache id' := fun id' hne => by
    rw [hcache, if_neg hne]
  refine ⟨fun id' hid' => ?_, fun id' hid' k e he => ?_, fun id' hid' k e he => ?_⟩ <;>
    by_cases hne : id' = id
  · subst hne
    rw [hself]
    exact Cache.isPlain_put hplain _ _ _ _
  · rw [hother id' hne]
    exact h.plain id' hid'
  · subst hne
    rw [hself] at he
    rcases Cache.find?_put hplain he with ⟨rfl, -, hvalue, -⟩ | ⟨hfind, -⟩
    · -- the label is the one that stood there, if one did
      rw [hvalue, EngineCache.deposit, Cache.peek?_eq]
      rcases hold : Cache.find? (s.cache id') key.normal with _ | e₀
      · rfl
      · exact h.label id' hid' _ e₀ hold
    · exact h.label id' hid' k e hfind
  · rw [hother id' hne] at he
    exact h.label id' hid' k e he
  · subst hne
    rw [hself] at he
    rw [hevents]
    rcases Cache.find?_put hplain he with ⟨rfl, -, hvalue, hexpiry⟩ | ⟨hfind, hkey⟩
    · exact hfounded e (by rw [hvalue]; rfl) hexpiry
    · exact (h.entry id' hid' k e hfind).mono (.refl e) (hnew id' k (.inr hkey))
  · rw [hother id' hne] at he
    rw [hevents]
    exact (h.entry id' hid' k e he).mono (.refl e) (hnew id' k (.inl hne))

/-! ### Tests on labels -/

/-- The label of an entry is that of a compiled policy or that of a list. -/
theorem beginsWith_label (h : s.IsFounded cast) (hid : id ∈ cast.caches)
    (he : (s.cache id).find? k = some e) (first : Text) (second : Value) :
    ∃ b, e.value.label.beginsWith first second = .ok b := by
  have hlabel := h.label id hid k e he
  cases h.entry id hid k e he with
  | policy _ _ _ _ key => exact ⟨_, CacheKey.beginsWith_eq_ok (hlabel.trans key) first second⟩
  | list _ _ _ key => exact ⟨_, CacheKey.beginsWith_eq_ok (hlabel.trans key) first second⟩

/-- The label of a list of a model is found by the test for that model. -/
theorem beginsWith_label_ofAcl (h : s.IsFounded cast) (hid : id ∈ cast.caches)
    (he : (s.cache id).find? k = some e) {fingerprint digest : Text}
    (hk : k = (CacheKey.ofAcl (.text fingerprint) digest).normal) :
    e.value.label.beginsWith "acl" (.text fingerprint) = .ok true := by
  rw [CacheKey.beginsWith_eq_ok ((h.label id hid k e he).trans hk) "acl" (.text fingerprint)]
  simp [Value.isNested]

/-- Dropping the entries that pass a test for a tag. -/
theorem cacheInvalidateWhere (h : s.IsFounded cast) (id : CacheId) (first : Text)
    (second : Value) : ∃ c, (cacheInvalidateWhere id (CacheKey.beginsWith first second) s).2 =
      s.setCache id c ∧ (id ∈ cast.caches → ∃ dropped, (s.cache id).Drops
        (fun _ d => d.label.beginsWith first second) dropped c) := by
  refine ⟨_, rfl, fun hid => ?_⟩
  obtain ⟨dropped, c, hresult, hdrops⟩ := cacheInvalidateWhere_spec (h.plain id hid)
    fun k e he => h.beginsWith_label hid he first second
  have hstate := congrArg (fun o => o.2.cache id) hresult
  simp only [Engine.cacheInvalidateWhere, snd_onCache, cache_setCache_self] at hstate
  rw [hstate]
  exact ⟨dropped, hdrops⟩

/-- Dropping everything. -/
theorem cacheClear (h : s.IsFounded cast) (id : CacheId) : ∃ c, (cacheClear id s).2 =
    s.setCache id c ∧ (id ∈ cast.caches → c.Within (s.cache id) ∧ ∀ k, c.find? k = none) := by
  refine ⟨_, rfl, fun hid => ?_⟩
  obtain ⟨n, c, hresult, hc⟩ := cacheClear_spec (h.plain id hid)
  have hstate := congrArg (fun o => o.2.cache id) hresult
  simp only [Engine.cacheClear, snd_onCache, cache_setCache_self] at hstate
  rw [hstate]
  exact hc

end IsFounded

end Engine

/-! ### Steps -/

/-- An answer of the host spares every entry. -/
theorem Event.spares_answered (name : Value) (o : OfferedPolicy) (id : CacheId) (k : CacheKey) :
    (Event.answered name o).Spares id k := fun _ _ _ h => h

/-- A list or a removal under one key of a cache spares everything else. -/
theorem Event.spares_of_ne {r : Resolver} {secret : Text} {ev : Event}
    (hev : ∀ fingerprint digest, ev.Ends id fingerprint digest →
      r.aclCache = id ∧ r.model.fingerprint = fingerprint ∧ secretDigest secret = digest)
    (hne : id ≠ r.aclCache ∨
      k ≠ (CacheKey.ofAcl r.model.fingerprint (secretDigest secret)).normal) :
    ev.Spares id k := by
  intro fingerprint digest hk hends
  obtain ⟨rfl, rfl, rfl⟩ := hev fingerprint digest hends
  rcases hne with hne | hne
  · exact hne rfl
  · exact hne hk

namespace Step

variable {r : Resolver}

/-- After a compiled form is kept, something stands behind every entry. -/
theorem isFounded_kept (h : s.IsFounded cast) (hr : r ∈ cast.members) {name version : Value}
    {o : OfferedPolicy} {c : AnyCompiled} (hoffered : .answered name o ∈ s.host.events)
    (hversion : o.cacheVersion = .ok version) (hcompile : o.compile r.model = .ok c) :
    (Engine.cachePut r.policyCache (.ofPolicy name version r.model.fingerprint)
      (some (.policy c)) r.policyTtl s).2.IsFounded cast := by
  by_cases hid : r.policyCache ∈ cast.caches
  · exact h.put hid rfl (List.nil_append _).symm
      (fun _ hvalue _ => .policy hr hoffered hversion hcompile rfl hvalue)
      fun _ _ _ _ hev => nomatch hev
  · exact h.setCache fun hid' => absurd hid' hid

/-- After a list is kept and taken down, something stands behind every entry. -/
theorem isFounded_listed (h : s.IsFounded cast) {secret : Text} (hsecret : secret.IsSecret)
    {a : AnyAcl} (ht : t = (Engine.cachePut r.aclCache
      (.ofAcl r.model.fingerprint (secretDigest secret)) (some (.acl a)) r.aclTtl s).2) :
    (t.note (.listed r secret a ((t.cache r.aclCache).expiry t.clock r.aclTtl))).IsFounded cast := by
  by_cases hid : r.aclCache ∈ cast.caches
  case neg =>
    have hfounded : t.IsFounded cast := ht ▸ h.setCache fun hid' => absurd hid' hid
    refine hfounded.note fun id' hid' k e he => ?_
    exact Event.spares_of_ne (fun _ _ hends => hends) (.inl fun heq => hid (heq ▸ hid'))
  have hplain := h.plain r.aclCache hid
  -- the write does not change when things expire that are written now
  have hexpiry : (t.cache r.aclCache).expiry t.clock r.aclTtl =
      (s.cache r.aclCache).expiry s.clock r.aclTtl := by
    rw [ht, Engine.snd_cachePut, Engine.cache_setCache_self, Engine.clock_setCache,
      Cache.expiry_put hplain]
  have hhost : t.host = s.host := by rw [ht]; rfl
  have hcaches : t.caches = _ := congrArg Engine.caches ht
  refine h.put hid hcaches (by rw [Engine.events_note, hhost]; exact List.singleton_append.symm) ?_ ?_
  · intro e hvalue he
    rw [hexpiry, ← he]
    exact .list (List.nil_append _).symm hsecret rfl rfl hvalue fun _ hev => nomatch hev
  · intro id' k hne ev hev
    obtain rfl := List.mem_singleton.1 hev
    exact Event.spares_of_ne (fun _ _ hends => hends)
      (hne.imp_right fun hk => hk (CacheKey.unfit?_ofAcl _ _))

/-- Forgetting a secret drops entries and spares what is left. -/
theorem forgets_forgetSecret (h : s.IsFounded cast) (host : Host (Chronicle η)) (secret : Value) :
    s.Forgets cast ((Call.forgetSecret secret).exec host r s) := by
  simp only [Call.exec]
  rcases Resolver.invalidateSecret_cases (r.provision host.noting) r secret s with
    ⟨e, hresult⟩ | ⟨x, rfl, hresult⟩ <;> rw [hresult]
  · cases secret <;> exact .of_host (fun _ _ => .refl _) rfl
  let key := (r.provision host.noting).aclKey (secretDigest x)
  have hwithin : ∀ id, id ∈ cast.caches →
      ((Engine.cacheInvalidate r.aclCache key s).2.cache id).Within (s.cache id) :=
    Engine.within_setCache fun hid => Cache.invalidate_within (h.plain _ hid) _
  rcases hdropped : Engine.cacheInvalidate r.aclCache key s with ⟨e | b, t⟩ <;>
    obtain rfl : (Engine.cacheInvalidate r.aclCache key s).2 = t := congrArg Prod.snd hdropped
  · exact .of_host hwithin rfl
  · refine .note hwithin rfl fun id hid k e he => Event.spares_of_ne (fun _ _ hends => hends) ?_
    by_cases hne : id = r.aclCache
    · subst hne
      refine .inr fun hk => ?_
      rw [Engine.cacheInvalidate, Engine.snd_onCache, Engine.cache_setCache_self, hk] at he
      cases (Cache.find?_invalidate (h.plain _ hid) (CacheKey.unfit?_ofAcl _ _)).symm.trans he
    · exact .inl hne

/-- Forgetting a policy drops entries and spares what is left. -/
theorem forgets_forgetPolicy (h : s.IsFounded cast) (host : Host (Chronicle η)) (name : Value) :
    s.Forgets cast ((Call.forgetPolicy name).exec host r s) := by
  simp only [Call.exec]
  generalize hresult : Resolver.invalidatePolicy (r.provision host.noting) r name s = o
  rcases Action.bind_cases hresult with ⟨e, t, hfirst, rfl⟩ | ⟨n, t, hfirst, hrest⟩ <;>
    obtain ⟨c, hc, hdropped⟩ := h.cacheInvalidateWhere r.policyCache "policy" name <;>
    rw [hfirst] at hc <;> subst hc <;>
    have hwithin := Engine.within_setCache fun hid => (hdropped hid).elim fun _ hd => hd.within
  · exact .of_host hwithin rfl
  have h₁ : (s.setCache r.policyCache c).IsFounded cast :=
    h.setCache fun hid => (hdropped hid).elim fun _ hdrops => hdrops.within
  rcases Action.bind_cases hrest with ⟨e, t, hsecond, rfl⟩ | ⟨n', t, hsecond, rfl⟩ <;>
    obtain ⟨c', hc', hdropped'⟩ := h₁.cacheInvalidateWhere r.aclCache "acl"
      (r.provision host.noting).fingerprint <;>
    rw [hsecond] at hc' <;> subst hc' <;>
    have hwithin' := fun id hid => (Engine.within_setCache (s := s.setCache r.policyCache c)
      (fun hid => (hdropped' hid).elim fun _ hd => hd.within) id hid).trans (hwithin id hid)
  · exact .of_host hwithin' rfl
  · refine .note hwithin' rfl ?_
    rintro _ hid k e he fingerprint digest hk ⟨rfl, rfl⟩
    rw [Engine.cache_setCache_self] at he
    obtain ⟨dropped, hdrops⟩ := hdropped' hid
    obtain ⟨hthere, hgone⟩ := hdrops.of_find? he
    exact hgone (h₁.beginsWith_label_ofAcl hid hthere hk)

/-- Forgetting everything drops entries and spares what is left. -/
theorem forgets_forgetAll (h : s.IsFounded cast) (host : Host (Chronicle η)) :
    s.Forgets cast (Call.forgetAll.exec host r s) := by
  simp only [Call.exec]
  generalize hresult : Resolver.clearCaches r s = o
  rcases Action.bind_cases hresult with ⟨e, t, hfirst, rfl⟩ | ⟨n, t, hfirst, hrest⟩ <;>
    obtain ⟨c, hc, hempty⟩ := h.cacheClear r.policyCache <;>
    rw [hfirst] at hc <;> subst hc <;>
    have hwithin := Engine.within_setCache fun hid => (hempty hid).1
  · exact .of_host hwithin rfl
  have h₁ : (s.setCache r.policyCache c).IsFounded cast := h.setCache fun hid => (hempty hid).1
  rcases Action.bind_cases hrest with ⟨e, t, hsecond, rfl⟩ | ⟨n', t, hsecond, rfl⟩ <;>
    obtain ⟨c', hc', hempty'⟩ := h₁.cacheClear r.aclCache <;>
    rw [hsecond] at hc' <;> subst hc' <;>
    have hwithin' := fun id hid => (Engine.within_setCache (s := s.setCache r.policyCache c)
      (fun hid => (hempty' hid).1) id hid).trans (hwithin id hid)
  · exact .of_host hwithin' rfl
  · refine .note hwithin' rfl fun id hid k e he fingerprint digest _ => ?_
    by_cases hid' : id = r.aclCache
    · subst hid'
      rw [Engine.cache_setCache_self, (hempty' hid).2] at he
      cases he
    · rintro (rfl | rfl)
      · rw [Engine.cache_setCache_of_ne _ _ hid', Engine.cache_setCache_self, (hempty hid).2] at he
        cases he
      · exact hid' rfl

/-- **Every step leaves all entries founded.** -/
theorem isFounded (hstep : Step cast s t) (h : s.IsFounded cast) : t.IsFounded cast := by
  cases hstep with
  | other hother =>
    exact h.of_within hother.caches (hother.events.trans (List.nil_append _).symm)
      fun _ _ _ _ _ _ hev => nomatch hev
  | looked id key => exact h.setCache fun hid => Cache.get_within (h.plain id hid) _ _
  | asked =>
    exact h.of_within (fun _ _ => .refl _) (List.nil_append _).symm
      fun _ _ _ _ _ _ hev => nomatch hev
  | answered name o => exact h.note fun id _ k _ _ => Event.spares_answered name o id k
  | kept hr hoffered hversion hcompile => exact isFounded_kept h hr hoffered hversion hcompile
  | listed _ hsecret _ ht => exact isFounded_listed h hsecret ht
  | refused _ hfailed =>
    refine h.setCache fun hid => ?_
    rw [Engine.fst_cachePut (h.plain _ hid) (CacheKey.unfit?_ofAcl _ _)] at hfailed
    cases hfailed
  | forgetSecret _ host secret => exact h.of_forgets (forgets_forgetSecret h host secret)
  | forgetPolicy _ host name => exact h.of_forgets (forgets_forgetPolicy h host name)
  | forgetAll _ host => exact h.of_forgets (forgets_forgetAll h host)

end Step

/-- Whatever happens, something stands behind every entry. -/
theorem isFounded_of_steps (hsteps : ReflTransGen (Step cast) s t) (h : s.IsFounded cast) :
    t.IsFounded cast := by
  induction hsteps with
  | refl => exact h
  | tail _ hstep ih => exact hstep.isFounded ih

/-- **Throughout a run that begins with empty caches, something stands behind every entry.** -/
theorem Runs.isFounded (hrun : Runs cast s t) (hs : s.IsFresh cast) : t.IsFounded cast :=
  isFounded_of_steps hrun.steps hs.isFounded

end Gatehouse
