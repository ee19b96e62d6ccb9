import Gatehouse.Proofs.Cache.Key
import Gatehouse.Proofs.Cache.Plain
import Gatehouse.Proofs.Policy.Names
import Gatehouse.Proofs.Resolver.Diary

/-!
# What a resolution does to its caches before it stores

Until everything is gathered, nothing happens to the caches of a resolver but that lookups drop what
they find expired (`OnlyExpires`).  What is put down to be stored is what was compiled, each under its
own key, and the list of a secret that was not found (`Request.IsGathered`).  Main statement: all of
this holds wherever gathering ends (`Request.meets_gather_undisturbed`).
-/

namespace Gatehouse

open Relation (ReflTransGen)

open Resolver (secretDigest)

variable {η : Type}

/-- The two caches of a resolver, which may be one. -/
def Resolver.Uses (r : Resolver) (id : CacheId) : Prop := id = r.policyCache ∨ id = r.aclCache

/-- A host whose collaborators do not touch the caches of a resolver. -/
structure Host.LeavesAlone (h : Host η) (r : Resolver) : Prop where
  /-- The collaborator for secrets. -/
  token : ∀ ctx secret s id, r.Uses id → (h.token ctx secret s).2.cache id = s.cache id
  /-- The collaborator for policies. -/
  policy : ∀ ctx name s id, r.Uses id → (h.policy ctx name s).2.cache id = s.cache id

/-- The policy that was compiled, and what it was compiled to. -/
def Deed.made? : Deed η → Option (OfferedPolicy × AnyCompiled)
  | compiled o (.ok c) => some (o, c)
  | _ => none

/-! ### What is promised -/

/-- **A lookup by which a call finds an entry expired:** the list of the secret is looked up at the
beginning, and the compiled form of each policy as soon as the host has answered with the policy. -/
inductive FoundExpired (r : Resolver) (q : Request) (s : Engine η) (deeds : List (Deed η))
    (id : CacheId) (k : CacheKey) (e : CacheEntry Deposit) : Prop where
  /-- The list of the secret. -/
  | list {secret : Text} (asked : q = .secret (.text secret)) (cache : r.aclCache = id)
    (key : k = (CacheKey.ofAcl r.model.fingerprint (secretDigest secret)).normal)
    (expired : e.isExpired s.clock = true)
  /-- The compiled form of a policy. -/
  | policy {name version : Value} {before after : Engine η} {a : Answer} {o : OfferedPolicy}
    (answered : .consulted (.policy name) before (.ok a) after ∈ deeds) (offered : a.policy? = some o)
    (versioned : o.cacheVersion = .ok version) (cache : r.policyCache = id)
    (key : k = (CacheKey.ofPolicy name version r.model.fingerprint).normal)
    (expired : e.isExpired after.clock = true)

/-- **Nothing was done to a cache but dropping what was found expired:** every entry was there before,
with the same value and the same expiry, and every entry that vanished was found expired. -/
structure OnlyExpires (r : Resolver) (q : Request) (s : Engine η) (deeds : List (Deed η))
    (t : Engine η) (id : CacheId) : Prop where
  /-- Nothing new is kept. -/
  within : (t.cache id).Within (s.cache id)
  /-- What is gone was found expired. -/
  gone : ∀ k e, (s.cache id).find? k = some e → (t.cache id).find? k = none →
    FoundExpired r q s deeds id k e

/-- **The write of a policy that was compiled in a call:** under the name for which the host answered
with it, its version, and the model. -/
def Write.IsOf (r : Resolver) (deeds : List (Deed η)) (m : OfferedPolicy × AnyCompiled)
    (st : Write) : Prop :=
  ∃ name before a after version, .consulted (.policy name) before (.ok a) after ∈ deeds ∧
    a.policy? = some m.1 ∧ m.1.cacheVersion = .ok version ∧
    st = ⟨r.policyCache, .ofPolicy name version r.model.fingerprint, .policy m.2, r.policyTtl⟩

/-- **The write of the list of a secret** that was not found in the cache. -/
def Request.listStores (r : Resolver) (s : Engine η) : Request → Kept → List Write
  | .secret (.text x), .acl a =>
    match (Engine.cacheGet r.aclCache (.ofAcl r.model.fingerprint (secretDigest x)) s).1 with
    | .ok none =>
      [⟨r.aclCache, .ofAcl r.model.fingerprint (secretDigest x), .acl a, r.aclTtl⟩]
    | _ => []
  | _, _ => []

/-! ### Lookups and calls -/

variable {r : Resolver} {q : Request} {s₀ : Engine η} {s t : Engine (Diary η)} {id : CacheId}
  {deeds deeds' : List (Deed η)} {k : CacheKey} {e e' : CacheEntry Deposit}

/-- An entry that was found expired was so when more is done. -/
theorem FoundExpired.mono (h : FoundExpired r q s₀ deeds id k e) (hsub : deeds ⊆ deeds') :
    FoundExpired r q s₀ deeds' id k e := by
  cases h with
  | list asked cache key expired => exact .list asked cache key expired
  | policy answered offered versioned cache key expired =>
    exact .policy (hsub answered) offered versioned cache key expired

/-- An entry that is like an expired one was found expired as well. -/
theorem FoundExpired.of_alike (h : FoundExpired r q s₀ deeds id k e) (halike : e.Alike e') :
    FoundExpired r q s₀ deeds id k e' := by
  cases h with
  | list asked cache key expired =>
    exact .list asked cache key (halike.isExpired_eq _ ▸ expired)
  | policy answered offered versioned cache key expired =>
    exact .policy answered offered versioned cache key (halike.isExpired_eq _ ▸ expired)

/-- What is known of a cache by some deeds is known by more of them, of any engine with this cache. -/
theorem OnlyExpires.mono {t t' : Engine η} (h : OnlyExpires r q s₀ deeds t id)
    (hsub : deeds ⊆ deeds') (hcache : t'.cache id = t.cache id) :
    OnlyExpires r q s₀ deeds' t' id :=
  ⟨hcache ▸ h.within, fun k e he hnone => (h.gone k e he (hcache ▸ hnone)).mono hsub⟩

/-- A write of a policy is one when more is done. -/
theorem Write.IsOf.mono {m : OfferedPolicy × AnyCompiled} {st : Write} (h : st.IsOf r deeds m)
    (hsub : deeds ⊆ deeds') : st.IsOf r deeds' m := by
  obtain ⟨name, before, a, after, version, hmem, hrest⟩ := h
  exact ⟨name, before, a, after, version, hsub hmem, hrest⟩

/-- What holds of both caches while a call gathers. -/
def Undisturbed (r : Resolver) (q : Request) (s₀ : Engine η) (t : Engine (Diary η)) : Prop :=
  ∀ id, r.Uses id → OnlyExpires r q s₀ t.host.deeds t.plain id ∧
    ∀ key, (t.cache id).Accepts key ↔ (s₀.cache id).Accepts key

/-- One state follows another one while a call gathers. -/
structure Follows (r : Resolver) (q : Request) (s₀ : Engine η) (s t : Engine (Diary η)) :
    Prop where
  /-- The caches stay as they were but for what is found expired. -/
  undisturbed : Undisturbed r q s₀ s → Undisturbed r q s₀ t
  /-- The diary goes on. -/
  deeds : s.host.deeds <:+ t.host.deeds

namespace Undisturbed

/-- What leaves the caches alone disturbs nothing. -/
theorem of_caches (h : Undisturbed r q s₀ s) (hcaches : ∀ id, r.Uses id → t.cache id = s.cache id)
    (hdeeds : s.host.deeds <:+ t.host.deeds) : Undisturbed r q s₀ t :=
  fun id hid => ⟨(h id hid).1.mono hdeeds.subset (hcaches id hid),
    fun key => hcaches id hid ▸ (h id hid).2 key⟩

/-- Undisturbed caches are plain if they were so in the beginning. -/
theorem isPlain (h : Undisturbed r q s₀ s) (hs₀ : ∀ id, r.Uses id → (s₀.cache id).IsPlain)
    (hid : r.Uses id) : (s.cache id).IsPlain :=
  (h id hid).1.within.plain (hs₀ id hid)

/-- **A lookup disturbs nothing** if what it finds expired may be found expired. -/
theorem cacheGet (h : Undisturbed r q s₀ s) (hs₀ : ∀ id, r.Uses id → (s₀.cache id).IsPlain)
    (id : CacheId) (key : CacheKey) (hexpired : ∀ e : CacheEntry Deposit,
      e.isExpired s.clock = true → FoundExpired r q s₀ s.host.deeds id key.normal e) :
    Undisturbed r q s₀ (Engine.cacheGet id key s).2 := by
  intro id' hid'
  have hplain := h.isPlain hs₀ hid'
  obtain ⟨⟨hwithin, hgone⟩, haccepts⟩ := h id' hid'
  by_cases hne : id' = id
  case neg =>
    have hcache : (Engine.cacheGet id key s).2.cache id' = s.cache id' :=
      Engine.cache_setCache_of_ne s _ hne
    have hsame : (Engine.cacheGet id key s).2.plain.cache id' = s.plain.cache id' := hcache
    refine ⟨⟨hsame ▸ hwithin, fun k e he hnone => hgone k e he (hsame ▸ hnone)⟩, fun key' => ?_⟩
    rw [hcache]
    exact haccepts key'
  subst hne
  have hcache : (Engine.cacheGet id' key s).2.cache id' =
      ((s.cache id').get s.clock key.normal).2 := Engine.cache_setCache_self s id' _
  have hsame : (Engine.cacheGet id' key s).2.plain.cache id' =
      ((s.cache id').get s.clock key.normal).2 := hcache
  refine ⟨⟨?_, fun k e he hnone => ?_⟩, fun key' => ?_⟩
  · rw [hsame]
    exact (Cache.get_within hplain _ _).trans hwithin
  · rw [hsame] at hnone
    rcases hfind : (s.cache id').find? k with _ | e'
    · exact hgone k e he hfind
    · obtain ⟨rfl, hexp⟩ := Cache.eq_of_find?_get hplain hfind hnone
      obtain ⟨e₁, he₁, halike⟩ := hwithin.entries _ e' hfind
      obtain rfl := Option.some.inj (he₁.symm.trans he)
      exact (hexpired e' hexp).of_alike halike
  · rw [hcache, Cache.accepts_get_iff hplain]
    exact haccepts key'

end Undisturbed

/-- Where the caches stay as they are, one state follows another one. -/
theorem Follows.of_caches (hcaches : ∀ id, r.Uses id → t.cache id = s.cache id)
    (hdeeds : s.host.deeds <:+ t.host.deeds) : Follows r q s₀ s t :=
  ⟨fun h => h.of_caches hcaches hdeeds, hdeeds⟩

/-- The policies that were compiled so far, in order. -/
def madeIn (deeds : List (Deed η)) : List (OfferedPolicy × AnyCompiled) :=
  (deeds.filterMap Deed.made?).reverse

/-- One more deed adds what it compiled. -/
theorem madeIn_cons (d : Deed η) (deeds : List (Deed η)) :
    madeIn (d :: deeds) = madeIn deeds ++ d.made?.toList := by
  cases hd : d.made? <;> simp [madeIn, hd]

/-- What is known while a call gathers: the caches are undisturbed, and these policies were
compiled. -/
def Made (r : Resolver) (q : Request) (s₀ : Engine η) (made : List (OfferedPolicy × AnyCompiled))
    (s : Engine (Diary η)) : Prop :=
  Undisturbed r q s₀ s ∧ madeIn s.host.deeds = made

/-- The host answered with a policy when it was asked for a name, and left this engine. -/
def Engine.WasOffered (s : Engine (Diary η)) (name : Value) (o : OfferedPolicy)
    (after : Engine η) : Prop :=
  ∃ before a, .consulted (.policy name) before (.ok a) after ∈ s.host.deeds ∧ a.policy? = some o

/-- What was compiled for a name is to be stored under that name, and the cache will accept it. -/
def Resolver.Fetched.IsFor (r : Resolver) (s₀ : Engine η) (name : Value) (f : Fetched) : Prop :=
  ∀ key c, f = .fresh key c → (∃ version, key = .ofPolicy name version r.model.fingerprint) ∧
    (s₀.cache r.policyCache).Accepts key.normal

/-- What is known of the writes that were put down so far. -/
def Gathered (r : Resolver) (q : Request) (s₀ : Engine η)
    (made : List (OfferedPolicy × AnyCompiled)) (l : List Write) (s : Engine (Diary η)) : Prop :=
  ∃ new, Made r q s₀ (made ++ new) s ∧
    List.Forall₂ (fun m st => st.IsOf r s.host.deeds m) new l

namespace Resolver

variable {h : Host η} {ctx : ContextId} {made : List (OfferedPolicy × AnyCompiled)}

/-- Calling a collaborator that leaves the caches alone disturbs nothing. -/
theorem made_noted {lookup : Lookup η} (question : Value → Question) {subject : Value}
    (hlookup : ∀ s id, r.Uses id → (lookup ctx subject s).2.cache id = s.cache id)
    (hs : Made r q s₀ made s) :
    Follows r q s₀ s (Lookup.noted lookup question ctx subject s).2 ∧
      Made r q s₀ made (Lookup.noted lookup question ctx subject s).2 := by
  have hfollows : Follows r q s₀ s (Lookup.noted lookup question ctx subject s).2 :=
    .of_caches (fun id hid => hlookup s.plain id hid) (List.suffix_cons _ _)
  refine ⟨hfollows, hfollows.undisturbed hs.1, ?_⟩
  change madeIn (_ :: s.host.deeds) = _
  rw [madeIn_cons, hs.2]
  exact List.append_nil _

/-- Asking for the token of a secret leaves the caches alone. -/
theorem meets_fetchToken_undisturbed (hh : h.LeavesAlone r) (secret : Text) :
    (fetchToken (r.provision h).diary ctx secret).Meets (Follows r q s₀) (Made r q s₀ made)
      fun _ s => Made r q s₀ made s := by
  have hlookup : ∀ s, Made r q s₀ made s →
      ReflTransGen (Follows r q s₀) s ((r.provision h).diary.token ctx (.text secret) s).2 ∧
      ∀ a, ((r.provision h).diary.token ctx (.text secret) s).1 = .ok a →
        Made r q s₀ made ((r.provision h).diary.token ctx (.text secret) s).2 := by
    intro s hs
    obtain ⟨hfollows, hmade⟩ := made_noted .token (hh.token ctx (.text secret)) hs
    exact ⟨.single hfollows, fun _ _ => hmade⟩
  exact (Action.Meets.fetchToken (Q := fun _ s => Made r q s₀ made s) hlookup).mono
    (fun _ hs => hs) fun _ _ ⟨_, _, hs⟩ => hs

/-- Asking for a policy leaves the caches alone. -/
theorem meets_fetchPolicy_undisturbed (hh : h.LeavesAlone r) (name : Value) :
    (fetchPolicy (r.provision h).diary ctx name).Meets (Follows r q s₀) (Made r q s₀ made)
      fun o s => Made r q s₀ made s ∧ ∃ after, s.WasOffered name o after ∧ s.clock = after.clock := by
  let Q : Answer → Engine (Diary η) → Prop := fun a s => Made r q s₀ made s ∧ ∃ before after,
    .consulted (.policy name) before (.ok a) after ∈ s.host.deeds ∧ s.clock = after.clock
  have hlookup : ∀ s, Made r q s₀ made s →
      ReflTransGen (Follows r q s₀) s ((r.provision h).diary.policy ctx name s).2 ∧
      ∀ a, ((r.provision h).diary.policy ctx name s).1 = .ok a →
        Q a ((r.provision h).diary.policy ctx name s).2 := by
    intro s hs
    obtain ⟨hfollows, hmade⟩ := made_noted .policy (hh.policy ctx name) hs
    refine ⟨.single hfollows, fun a ha => ⟨hmade, s.plain, (h.policy ctx name s.plain).2, ?_, rfl⟩⟩
    have ha' : (h.policy ctx name s.plain).1 = .ok a := ha
    refine List.mem_cons.2 (.inl ?_)
    rw [← ha']
    rfl
  refine (Action.Meets.fetchPolicy (Q := Q) hlookup).mono (fun _ h => h) ?_
  rintro o s ⟨a, ha, hmade, before, after, hmem, hclock⟩
  exact ⟨hmade, after, ⟨before, a, hmem, ha⟩, hclock⟩

/-- Looking a compiled policy up leaves the caches alone, but for what is found expired. -/
theorem meets_cacheGet_undisturbed (hs₀ : ∀ id, r.Uses id → (s₀.cache id).IsPlain)
    {name version : Value} {o : OfferedPolicy} (hversion : o.cacheVersion = .ok version) :
    (Engine.cacheGet r.policyCache (.ofPolicy name version r.model.fingerprint)).Meets
      (Follows r q s₀)
      (fun s => Made r q s₀ made s ∧ ∃ after, s.WasOffered name o after ∧ s.clock = after.clock)
      fun _ s => (Made r q s₀ made s ∧ ∃ after, s.WasOffered name o after) ∧
        (s₀.cache r.policyCache).Accepts
          (CacheKey.ofPolicy name version r.model.fingerprint).normal := by
  rintro s ⟨⟨hundisturbed, hmade⟩, after, ⟨before, a, hmem, ha⟩, hclock⟩
  have hnext := hundisturbed.cacheGet hs₀ r.policyCache
    (.ofPolicy name version r.model.fingerprint) fun e hexp =>
      .policy hmem ha hversion rfl rfl (hclock ▸ hexp)
  refine ⟨.single ⟨fun _ => hnext, List.suffix_rfl⟩, fun found hfound =>
    ⟨⟨⟨hnext, hmade⟩, after, before, a, hmem, ha⟩, ?_⟩⟩
  rw [← (hundisturbed _ (.inl rfl)).2]
  exact Engine.accepts_of_cacheGet (hundisturbed.isPlain hs₀ (.inl rfl)) hfound

/-- Compiling a policy is taken down, and its write is put down. -/
theorem meets_compile_undisturbed {name version : Value} {o : OfferedPolicy}
    (hversion : o.cacheVersion = .ok version) : ((r.provision h).diary.compile o).Meets
      (Follows r q s₀) (fun s => Made r q s₀ made s ∧ ∃ after, s.WasOffered name o after)
      fun c s => Gathered r q s₀ made (Fetched.stores r
        [.fresh (.ofPolicy name version r.model.fingerprint) c]) s := by
  rintro s ⟨⟨hundisturbed, hmade⟩, after, before, a, hmem, ha⟩
  have hplain : ((r.provision h).diary.compile o s).2.plain = s.plain :=
    r.isPure_provision h o s.plain
  have hcaches : ∀ id, ((r.provision h).diary.compile o s).2.cache id = s.cache id :=
    fun id => congrArg (fun u : Engine η => u.cache id) hplain
  have hdeeds : s.host.deeds <:+ ((r.provision h).diary.compile o s).2.host.deeds :=
    List.suffix_cons _ _
  have hfollows : Follows r q s₀ s ((r.provision h).diary.compile o s).2 :=
    .of_caches (fun id _ => hcaches id) hdeeds
  refine ⟨.single hfollows, fun c hc => ⟨[(o, c)], ⟨hfollows.undisturbed hundisturbed, ?_⟩,
    .cons ⟨name, before, a, after, version, hdeeds.mem hmem, ha, hversion, rfl⟩ .nil⟩⟩
  have hc' : ((r.provision h).compile o s.plain).1 = .ok c := hc
  change madeIn (.compiled o ((r.provision h).compile o s.plain).1 :: s.host.deeds) = _
  rw [hc', madeIn_cons, hmade]
  rfl

/-- **What was compiled for a name is to be stored,** and nothing else is. -/
theorem meets_fetchCompiled_undisturbed (hh : h.LeavesAlone r)
    (hs₀ : ∀ id, r.Uses id → (s₀.cache id).IsPlain) (name : Value) :
    (fetchCompiled (r.provision h).diary r ctx name).Meets (Follows r q s₀) (Made r q s₀ made)
      fun f s => Gathered r q s₀ made (Fetched.stores r [f]) s ∧ f.IsFor r s₀ name := by
  refine .bind (meets_fetchPolicy_undisturbed hh name) fun o => ?_
  rcases hversion : o.cacheVersion with p | version
  · exact .bind (Q := fun _ _ => False) .fail fun _ _ hs => hs.elim
  rw [Action.ofProblem_ok_bind]
  refine .bind (meets_cacheGet_undisturbed hs₀ hversion) fun found => ?_
  cases found with
  | some kept =>
    refine .done fun s hs => ⟨⟨[], ?_, .nil⟩, fun _ _ hf => nomatch hf⟩
    rw [List.append_nil]
    exact hs.1.1
  | none =>
    refine .bind .checkContext fun _ => .of_fact fun haccepts => ?_
    refine .bind (meets_compile_undisturbed hversion) fun c => .done fun s hs => ⟨hs, ?_⟩
    rintro _ _ ⟨⟩
    exact ⟨⟨version, rfl⟩, haccepts⟩

/-- **What was compiled for several names is to be stored,** in order, and nothing else is. -/
theorem meets_fetchEach_undisturbed (hh : h.LeavesAlone r)
    (hs₀ : ∀ id, r.Uses id → (s₀.cache id).IsPlain) (names : List Value) :
    (fetchEach (r.provision h).diary r ctx names).Meets (Follows r q s₀) (Made r q s₀ made)
      fun l s => Gathered r q s₀ made (Fetched.stores r l) s ∧
        List.Forall₂ (fun name f => f.IsFor r s₀ name) names l := by
  induction names generalizing made with
  | nil =>
    refine .done fun s hs => ⟨⟨[], ?_, .nil⟩, .nil⟩
    rw [List.append_nil]
    exact hs
  | cons name rest ih =>
    refine .bind (meets_fetchCompiled_undisturbed hh hs₀ name) fun f => .of_fact fun hf =>
      .of_exists fun new => ?_
    -- the writes that were put down stay justified as the diary goes on
    have hrest := (@ih (made ++ new)).frame
      (I := fun s => List.Forall₂ (fun m st => st.IsOf r s.host.deeds m) new (Fetched.stores r [f]))
      fun _ _ hstep hnew => hnew.imp fun _ _ hst => hst.mono hstep.deeds.subset
    refine .bind (hrest.mono (fun _ hs => ⟨hs.2, hs.1⟩) fun _ _ hs => hs) fun more => ?_
    refine .done fun s hs => ?_
    obtain ⟨hnew, ⟨new', hmade, hnew'⟩, hmore⟩ := hs
    refine ⟨⟨new ++ new', by rw [← List.append_assoc]; exact hmade, ?_⟩, .cons hf hmore⟩
    rw [Fetched.stores_cons]
    exact List.rel_append hnew hnew'

end Resolver

/-! ### What is put down -/

namespace Resolver.Fetched

/-- What is to be stored of what was fetched for some names. -/
theorem exists_of_mem_stores {names : List Value} {l : List Fetched}
    (h : List.Forall₂ (fun name f => f.IsFor r s₀ name) names l) {st : Write}
    (hst : st ∈ stores r l) : ∃ name ∈ names, ∃ version,
      st.key = .ofPolicy name version r.model.fingerprint ∧ st.cache = r.policyCache ∧
        (s₀.cache r.policyCache).Accepts st.key.normal := by
  induction h with
  | nil => cases hst
  | @cons name f names l hf _ ih =>
    rw [stores_cons, List.mem_append] at hst
    rcases hst with hst | hst
    · cases f with
      | cached kept => cases hst
      | fresh key c =>
        obtain rfl := List.mem_singleton.1 hst
        obtain ⟨⟨version, hkey⟩, haccepts⟩ := hf key c rfl
        exact ⟨name, List.mem_cons_self, version, hkey, rfl, haccepts⟩
    · obtain ⟨name', hmem, hrest⟩ := ih hst
      exact ⟨name', List.mem_cons_of_mem _ hmem, hrest⟩

/-- What was fetched for different names is stored under different keys. -/
theorem pairwise_stores {names : List Value} {l : List Fetched}
    (h : List.Forall₂ (fun name f => f.IsFor r s₀ name) names l)
    (hnames : names.Pairwise fun v w => v.same w = false) :
    (stores r l).Pairwise fun st st' => st.key.normal ≠ st'.key.normal := by
  induction h with
  | nil => exact .nil
  | @cons name f names l hf hl ih =>
    obtain ⟨hfirst, hrest⟩ := List.pairwise_cons.1 hnames
    cases f with
    | cached kept => exact ih hrest
    | fresh key c =>
      refine .cons (fun st hst hsame => ?_) (ih hrest)
      obtain ⟨name', hmem, version', hkey', -⟩ := exists_of_mem_stores hl hst
      obtain ⟨⟨version, hkey⟩, -⟩ := hf key c rfl
      dsimp only at hsame
      rw [hkey, hkey', CacheKey.normal_ofPolicy_eq_iff, hfirst name' hmem] at hsame
      exact Bool.noConfusion hsame.1

end Resolver.Fetched

namespace Request

variable {k : Kept}

/-- The list of a secret is written under its own key. -/
theorem eq_of_mem_listStores {s : Engine η} {st : Write} (h : st ∈ q.listStores r s k) :
    st.cache = r.aclCache ∧ ∃ digest, st.key = .ofAcl r.model.fingerprint digest := by
  unfold listStores at h
  split at h
  · split at h
    · obtain rfl := List.mem_singleton.1 h
      exact ⟨rfl, _, rfl⟩
    · cases h
  · cases h

/-- At most one list is stored, so the writes of lists are related in any way. -/
theorem pairwise_listStores {R : Write → Write → Prop} (s : Engine η) :
    (q.listStores r s k).Pairwise R := by
  unfold listStores
  split
  · split
    · exact List.pairwise_singleton R _
    · exact .nil
  · exact .nil

/-- **What was gathered for a request:** the writes of what was compiled, in order, and then that of
the list of a secret that was not found.  They have different keys, and the caches accept them. -/
structure IsGathered (r : Resolver) (q : Request) (s₀ : Engine η) (g : List Write × Kept)
    (s : Engine (Diary η)) : Prop where
  /-- The caches are undisturbed. -/
  undisturbed : Undisturbed r q s₀ s
  /-- What is to be stored. -/
  stores : ∃ new, g.1 = new ++ q.listStores r s₀ g.2 ∧
    List.Forall₂ (fun m st => st.IsOf r s.host.deeds m) (madeIn s.host.deeds) new
  /-- The keys are different. -/
  keys : g.1.Pairwise fun st st' => st.key.normal ≠ st'.key.normal
  /-- The caches accept the keys. -/
  accepted : ∀ st ∈ g.1, r.Uses st.cache ∧ (s₀.cache st.cache).Accepts st.key.normal

/-- What was gathered where compiled policies were fetched. -/
theorem IsGathered.of_fetched (hs₀ : ∀ id, r.Uses id → (s₀.cache id).IsPlain) {names : List Value}
    {l : List Resolver.Fetched} (hl : Gathered r q s₀ [] (Resolver.Fetched.stores r l) s)
    (hfor : List.Forall₂ (fun name f => f.IsFor r s₀ name) names l)
    (hnames : names.Pairwise fun v w => v.same w = false) (k : Kept) :
    q.IsGathered r s₀ (Resolver.Fetched.stores r l ++ q.listStores r s₀ k, k) s := by
  obtain ⟨new, ⟨hundisturbed, hmade⟩, hnew⟩ := hl
  rw [List.nil_append] at hmade
  refine ⟨hundisturbed, ⟨_, rfl, hmade ▸ hnew⟩, List.pairwise_append.2
    ⟨Resolver.Fetched.pairwise_stores hfor hnames, pairwise_listStores s₀, ?_⟩, fun st hst => ?_⟩
  · intro st hst st' hst'
    obtain ⟨name, -, version, hkey, -⟩ := Resolver.Fetched.exists_of_mem_stores hfor hst
    obtain ⟨-, digest, hkey'⟩ := eq_of_mem_listStores hst'
    rw [hkey, hkey']
    exact CacheKey.normal_ofPolicy_ne_ofAcl _ _ _ _ _
  · rcases List.mem_append.1 hst with hst | hst
    · obtain ⟨name, -, version, -, hcache, haccepts⟩ :=
        Resolver.Fetched.exists_of_mem_stores hfor hst
      exact ⟨.inl hcache, hcache ▸ haccepts⟩
    · obtain ⟨hcache, digest, hkey⟩ := eq_of_mem_listStores hst
      refine ⟨.inr hcache, Cache.accepts_of_unfit? (hs₀ _ (.inr hcache)) ?_⟩
      rw [hkey]
      exact CacheKey.unfit?_ofAcl _ _

/-- Where a call begins. -/
structure Begins (r : Resolver) (s₀ : Engine η) (s : Engine (Diary η)) : Prop where
  /-- The caches are those of the beginning. -/
  caches : ∀ id, r.Uses id → s.cache id = s₀.cache id
  /-- It is the time of the beginning. -/
  clock : s.clock = s₀.clock
  /-- Nothing was done. -/
  deeds : s.host.deeds = []

/-- Nothing is disturbed and nothing was compiled in the beginning. -/
theorem Begins.made (h : Begins r s₀ s) : Made r q s₀ [] s := by
  refine ⟨fun id hid => ?_, by rw [h.deeds]; rfl⟩
  have hcache : s.plain.cache id = s₀.cache id := h.caches id hid
  refine ⟨⟨hcache ▸ .refl _, fun k e he hnone => ?_⟩, fun key => by rw [h.caches id hid]⟩
  rw [hcache, he] at hnone
  cases hnone

section Gathering

variable {h : Host η} {ctx : ContextId} (hh : h.LeavesAlone r)
  (hs₀ : ∀ id, r.Uses id → (s₀.cache id).IsPlain)
include hh hs₀

/-- What is gathered for policy names. -/
theorem meets_gatherNames_undisturbed (names : Value) :
    (Resolver.gatherNames (r.provision h).diary r ctx names).Meets (Follows r q s₀)
      (Made r q s₀ []) fun g s => ∀ k, q.IsGathered r s₀ (g.1 ++ q.listStores r s₀ k, k) s := by
  refine (Action.Meets.gatherNames fun distinct _ =>
    Resolver.meets_fetchEach_undisturbed hh hs₀ distinct).mono (fun _ hs => hs) ?_
  rintro ⟨-, acl⟩ s ⟨distinct, l, hdistinct, ⟨hl, hfor⟩, -, rfl⟩ k
  exact .of_fetched hs₀ hl hfor (Token.pairwise_of_distinctNames hdistinct) k

/-- What is gathered for a secret. -/
theorem meets_gatherSecret_undisturbed (x : Text) :
    (Resolver.gatherSecret (r.provision h).diary r ctx x).Meets
      (Follows r (.secret (.text x)) s₀) (Begins r s₀)
      fun g s => (secret (.text x)).IsGathered r s₀ g s := by
  let key : CacheKey := .ofAcl r.model.fingerprint (secretDigest x)
  have hlook : (Engine.cacheGet r.aclCache key).Meets (Follows r (.secret (.text x)) s₀)
      (Begins r s₀) fun found s => Made r (.secret (.text x)) s₀ [] s ∧
        (Engine.cacheGet r.aclCache key s₀).1 = .ok found := by
    intro s hs
    have hmade : Made r (.secret (.text x)) s₀ [] s := hs.made
    have hnext := hmade.1.cacheGet hs₀ r.aclCache key fun e hexp =>
      .list rfl rfl rfl (hs.clock ▸ hexp)
    refine ⟨.single ⟨fun _ => hnext, List.suffix_rfl⟩, fun found hfound => ⟨⟨hnext, hmade.2⟩, ?_⟩⟩
    rw [← hfound]
    exact (Engine.fst_cacheGet_congr (hs.caches _ (.inr rfl)) hs.clock key).symm
  have htoken : (Resolver.fetchToken (r.provision h).diary ctx x).Meets
      (Follows r (.secret (.text x)) s₀) (fun s => Made r (.secret (.text x)) s₀ [] s ∧
        (Engine.cacheGet r.aclCache key s₀).1 = .ok none)
      fun _ s => Made r (.secret (.text x)) s₀ [] s ∧
        (Engine.cacheGet r.aclCache key s₀).1 = .ok none :=
    .of_fact fun hnone => (Resolver.meets_fetchToken_undisturbed hh x).mono (fun _ hs => hs)
      fun _ _ hs => ⟨hs, hnone⟩
  have hnames : ∀ names, (Resolver.gatherNames (r.provision h).diary r ctx names).Meets
      (Follows r (.secret (.text x)) s₀) (fun s => Made r (.secret (.text x)) s₀ [] s ∧
        (Engine.cacheGet r.aclCache key s₀).1 = .ok none)
      fun g s => (∀ k, (secret (.text x)).IsGathered r s₀
        (g.1 ++ (secret (.text x)).listStores r s₀ k, k) s) ∧
          (Engine.cacheGet r.aclCache key s₀).1 = .ok none :=
    fun names => .of_fact fun hnone => (meets_gatherNames_undisturbed hh hs₀ names).mono
      (fun _ hs => hs) fun _ _ hg => ⟨hg, hnone⟩
  refine (Action.Meets.gatherSecret hlook htoken hnames).mono (fun _ hs => hs) ?_
  rintro g s (⟨kept, rfl, hmade, hfound⟩ | ⟨g', rfl, hg, hnone⟩)
  · have hlist : listStores r s₀ (.secret (.text x)) kept = [] := by
      cases kept <;> simp only [listStores, key] at hfound ⊢
      rw [hfound]
    have hnil : Gathered r (.secret (.text x)) s₀ [] (Resolver.Fetched.stores r []) s :=
      ⟨[], hmade, .nil⟩
    have hg := IsGathered.of_fetched hs₀ hnil (.nil (α := Value)) .nil kept
    rw [hlist] at hg
    exact hg
  · have hlist : listStores r s₀ (.secret (.text x)) (.acl g'.2) =
        [Resolver.aclStore (r.provision h).diary r x g'.2] := by
      simp only [listStores, key] at hnone ⊢
      rw [hnone]
      rfl
    exact hlist ▸ hg (.acl g'.2)

/-- **Gathering leaves the caches alone,** but for what is found expired, and puts down what was
compiled and the list of a secret that was not found. -/
theorem meets_gather_undisturbed (q : Request) : (q.gather (r.provision h).diary r ctx).Meets
    (Follows r q s₀) (Begins r s₀) fun g s => q.IsGathered r s₀ g s := by
  cases q with
  | secret v =>
    refine .bind .checkContext fun _ => ?_
    rcases v with _ | _ | _ | _ | x | _ | _
    case text =>
      dsimp only
      split
      · exact .fault
      rcases x.unencodable? with _ | p
      · exact meets_gatherSecret_undisturbed hh hs₀ x
      · exact .fail
    all_goals exact .fault
  | policies names =>
    refine .bind .checkContext fun _ => .bind ((meets_gatherNames_undisturbed hh hs₀ names).mono
      (fun _ hs => hs.made) fun _ _ hg => hg) fun g => .done fun s hg => ?_
    have hlist : listStores r s₀ (.policies names) (.acl g.2) = [] := rfl
    have hg' := hg (.acl g.2)
    rw [hlist, List.append_nil] at hg'
    exact hg'
  | policy name =>
    refine .bind .checkContext fun _ =>
      .bind ((Resolver.meets_fetchCompiled_undisturbed hh hs₀ name).mono (fun _ hs => hs.made)
        fun _ _ hf => hf) fun f => .bind .checkContext fun _ => .done fun s hs => ?_
    have hlist : listStores r s₀ (.policy name) f.kept = [] := rfl
    have hg := IsGathered.of_fetched hs₀ hs.1 (.cons hs.2 .nil)
      (List.pairwise_singleton _ name) f.kept
    rw [hlist, List.append_nil] at hg
    exact hg

end Gathering

end Request

end Gatehouse
