import Gatehouse.Proofs.Resolver.Founded

/-!
# What dropping a policy drops

The compiled forms of a policy are found by the name that it was asked for by, the lists of a model
by the fingerprint of the model.  Main statement: where something stands behind every entry,
dropping a policy drops exactly these, and counts them; every other entry of every cache stays as it
is (`Resolver.invalidatePolicy_spec`).
-/

namespace Gatehouse

/-- Whether a policy that was asked for by one name was asked for by another.  Sequences and records
are no names. -/
def Value.IsName (name n : Value) : Prop := name.isNested = false ∧ n.same name = true

namespace CacheKey

/-- The key of a compiled form of a policy that was asked for by a name, of whatever version and for
whatever model. -/
def IsFormOf (name : Value) (k : CacheKey) : Prop :=
  ∃ n version fingerprint, k = (ofPolicy n version fingerprint).normal ∧ name.IsName n

/-- The key of a list of a model. -/
def IsListOf (fingerprint : Text) (k : CacheKey) : Prop :=
  ∃ digest, k = (ofAcl (.text fingerprint) digest).normal

variable {name : Value} {fingerprint : Text} {k : CacheKey}

/-- What is kept as a compiled form is not kept as a list. -/
theorem IsFormOf.not_isListOf (h : k.IsFormOf name) : ¬ k.IsListOf fingerprint := by
  rintro ⟨digest, hk⟩
  obtain ⟨n, version, f, rfl, -⟩ := h
  exact normal_ofPolicy_ne_ofAcl _ _ _ _ _ hk

/-- The key of a policy is one of a name exactly if the policy was asked for by that name. -/
theorem isFormOf_ofPolicy {n version f : Value} :
    (ofPolicy n version f).normal.IsFormOf name ↔ name.IsName n := by
  refine ⟨?_, fun h => ⟨n, version, f, rfl, h⟩⟩
  rintro ⟨n', version', f', hk, hnested, hsame⟩
  obtain ⟨hname, -, -⟩ := normal_ofPolicy_eq_iff.1 hk
  refine ⟨hnested, normal_ofDatum_eq_iff.1 ?_⟩
  exact (normal_ofDatum_eq_iff.2 hname).trans (normal_ofDatum_eq_iff.2 hsame)

/-- The key of a list is none of a policy. -/
theorem not_isFormOf_ofAcl {f : Value} {digest : Text} :
    ¬ (ofAcl f digest).normal.IsFormOf name := by
  rintro ⟨n, version, f', hk, -⟩
  exact normal_ofPolicy_ne_ofAcl _ _ _ _ _ hk.symm

/-- The key of a policy is none of a list. -/
theorem not_isListOf_ofPolicy {n version f : Value} :
    ¬ (ofPolicy n version f).normal.IsListOf fingerprint := by
  rintro ⟨digest, hk⟩
  exact normal_ofPolicy_ne_ofAcl _ _ _ _ _ hk

/-- The key of a list is one of its model, and of no other. -/
theorem isListOf_ofAcl {f digest : Text} :
    (ofAcl (.text f) digest).normal.IsListOf fingerprint ↔ f = fingerprint := by
  constructor
  · rintro ⟨digest', hk⟩
    exact Value.text.inj (Value.text_eq_of_same (normal_ofAcl_eq_iff.1 hk).1)
  · rintro rfl
    exact ⟨digest, rfl⟩

end CacheKey

variable {η : Type} {cast : Cast} {s : Engine (Chronicle η)} {id : CacheId} {k : CacheKey}
  {e : CacheEntry Deposit} {r : Resolver}

namespace Engine.IsFounded

/-- The test for a policy finds the keys of its compiled forms. -/
theorem beginsWith_label_policy_iff (h : s.IsFounded cast) (hid : id ∈ cast.caches)
    (he : (s.cache id).find? k = some e) (name : Value) :
    e.value.label.beginsWith "policy" name = .ok true ↔ k.IsFormOf name := by
  have hlabel := h.label id hid k e he
  cases h.entry id hid k e he with
  | @policy r n version _ _ _ _ _ _ key =>
    rw [CacheKey.beginsWith_eq_ok (hlabel.trans key) "policy" name, key,
      CacheKey.isFormOf_ofPolicy, Value.IsName, ← CacheKey.normal_ofDatum_eq_iff]
    simp
  | list _ _ _ key =>
    rw [CacheKey.beginsWith_eq_ok (hlabel.trans key) "policy" name, key]
    simp [CacheKey.not_isFormOf_ofAcl]

/-- The test for a model finds the keys of its lists. -/
theorem beginsWith_label_acl_iff (h : s.IsFounded cast) (hid : id ∈ cast.caches)
    (he : (s.cache id).find? k = some e) (fingerprint : Text) :
    e.value.label.beginsWith "acl" (.text fingerprint) = .ok true ↔ k.IsListOf fingerprint := by
  have hlabel := h.label id hid k e he
  cases h.entry id hid k e he with
  | policy _ _ _ _ key =>
    rw [CacheKey.beginsWith_eq_ok (hlabel.trans key) "acl" (.text fingerprint), key]
    simp [CacheKey.not_isListOf_ofPolicy]
  | @list r _ _ _ _ _ _ _ key =>
    rw [CacheKey.beginsWith_eq_ok (hlabel.trans key) "acl" (.text fingerprint), key,
      CacheKey.isListOf_ofAcl]
    simp [Value.isNested, CacheKey.normal_ofDatum_eq_iff, Value.same, Value.normal]

end Engine.IsFounded

/-- **What dropping a policy does to the caches:** the compiled forms of the policy and the lists of
the model are gone, under these keys, and every other entry of every cache is as it was. -/
structure Engine.Drops (r : Resolver) (name : Value) (s : Engine η) (forms lists : List CacheKey)
    (u : Engine η) : Prop where
  /-- Every compiled form counts once. -/
  forms_nodup : forms.Nodup
  /-- Every list counts once. -/
  lists_nodup : lists.Nodup
  /-- Exactly the compiled forms of the policy are dropped from the cache of compiled policies. -/
  mem_forms_iff : ∀ k, k ∈ forms ↔
    k.IsFormOf name ∧ ∃ e, (s.cache r.policyCache).find? k = some e
  /-- Exactly the lists of the model are dropped from the cache of lists. -/
  mem_lists_iff : ∀ k, k ∈ lists ↔
    k.IsListOf r.model.fingerprint ∧ ∃ e, (s.cache r.aclCache).find? k = some e
  /-- Nothing else changes. -/
  find?_eq : ∀ id k, (u.cache id).find? k =
    if id = r.policyCache ∧ k ∈ forms ∨ id = r.aclCache ∧ k ∈ lists then none
    else (s.cache id).find? k

namespace Engine.Drops

variable {name : Value} {u : Engine (Chronicle η)} {forms lists : List CacheKey}

/-- What is left was there. -/
theorem of_find? (h : s.Drops r name forms lists u) (hfind : (u.cache id).find? k = some e) :
    (s.cache id).find? k = some e := by
  rw [h.find?_eq] at hfind
  split at hfind
  · cases hfind
  · exact hfind

/-- No compiled forms are left. -/
theorem not_isFormOf (h : s.Drops r name forms lists u)
    (hfind : (u.cache r.policyCache).find? k = some e) : ¬ k.IsFormOf name := by
  intro hk
  have hmem : k ∈ forms := (h.mem_forms_iff k).2 ⟨hk, e, h.of_find? hfind⟩
  rw [h.find?_eq, if_pos (.inl ⟨rfl, hmem⟩)] at hfind
  cases hfind

/-- No lists are left. -/
theorem not_isListOf (h : s.Drops r name forms lists u)
    (hfind : (u.cache r.aclCache).find? k = some e) : ¬ k.IsListOf r.model.fingerprint := by
  intro hk
  have hmem : k ∈ lists := (h.mem_lists_iff k).2 ⟨hk, e, h.of_find? hfind⟩
  rw [h.find?_eq, if_pos (.inr ⟨rfl, hmem⟩)] at hfind
  cases hfind

end Engine.Drops

/-- **Dropping a policy** drops exactly the compiled forms of the policy and the lists of the model,
and says how many entries these were. -/
theorem Resolver.invalidatePolicy_spec (hs : s.IsFounded cast)
    (hpolicies : r.policyCache ∈ cast.caches) (hlists : r.aclCache ∈ cast.caches)
    (h : Host (Chronicle η)) (name : Value) : ∃ forms lists u,
      invalidatePolicy (r.provision h) r name s = (.ok (forms.length + lists.length), u) ∧
        s.Drops r name forms lists u := by
  obtain ⟨forms, c, hfirst, hforms⟩ := Engine.cacheInvalidateWhere_spec (hs.plain _ hpolicies)
    fun k e he => hs.beginsWith_label hpolicies he "policy" name
  have hs₁ : (s.setCache r.policyCache c).IsFounded cast := hs.setCache fun _ => hforms.within
  obtain ⟨lists, c', hsecond, hlisted⟩ := Engine.cacheInvalidateWhere_spec (hs₁.plain _ hlists)
    fun k e he => hs₁.beginsWith_label hlists he "acl" (.text r.model.fingerprint)
  have hmem : ∀ k, k ∈ forms ↔ k.IsFormOf name ∧
      ∃ e, (s.cache r.policyCache).find? k = some e := by
    intro k
    rw [hforms.mem_iff, ← exists_and_left]
    exact exists_congr fun e => (and_congr_right fun he =>
      hs.beginsWith_label_policy_iff hpolicies he name).trans and_comm
  -- the first step leaves the lists alone, also if both caches are one
  have hfirst_find : ∀ id k, ((s.setCache r.policyCache c).cache id).find? k =
      if id = r.policyCache ∧ k ∈ forms then none else (s.cache id).find? k := by
    intro id k
    by_cases hid : id = r.policyCache
    · subst hid
      rw [Engine.cache_setCache_self, hforms.find?_eq]
      simp
    · rw [Engine.cache_setCache_of_ne _ _ hid, if_neg fun h => hid h.1]
  have hmem' : ∀ k, k ∈ lists ↔ k.IsListOf r.model.fingerprint ∧
      ∃ e, (s.cache r.aclCache).find? k = some e := by
    intro k
    rw [hlisted.mem_iff, ← exists_and_left]
    refine exists_congr fun e => (and_congr_right fun he =>
      hs₁.beginsWith_label_acl_iff hlists he _).trans
        (and_comm.trans (and_congr_right fun hk => ?_))
    rw [hfirst_find, if_neg fun h => ((hmem k).1 h.2).1.not_isListOf hk]
  refine ⟨forms, lists, (s.setCache r.policyCache c).setCache r.aclCache c',
    (Action.bind_of_ok hfirst).trans (Action.bind_of_ok hsecond),
    hforms.nodup, hlisted.nodup, hmem, hmem', fun id k => ?_⟩
  by_cases hid : id = r.aclCache
  · subst hid
    rw [Engine.cache_setCache_self, hlisted.find?_eq, hfirst_find]
    by_cases hk : k ∈ lists <;> simp [hk]
  · rw [Engine.cache_setCache_of_ne _ _ hid, hfirst_find]
    simp [hid]

end Gatehouse
