import Gatehouse.Proofs.Acl.Merged
import Gatehouse.Proofs.Cache.Key
import Gatehouse.Proofs.Policy.Compiled
import Gatehouse.Proofs.Policy.Names
import Gatehouse.Proofs.Resolver.Rules

/-!
# How resolutions fail

A step delivers if it keeps what is to be kept, its result is as promised, and it fails only with
breakage that the engine reports as it is (`Action.Delivers`).  A resolution delivers if its caches
hold what resolvers for its model keep there (`Resolver.InOrder`) and its host answers with tokens
and policies that are what they pass for (`Host.AnswersInOrder`), whatever else the host does or
raises.  Main statement: what is then resolved for a secret is a list that was merged from compiled
policies (`Resolver.delivers_resolveSecret`).
-/

namespace Gatehouse

variable {η α β : Type}

/-! ### Delivering -/

/-- **A step that delivers:** started where `I` holds, it leaves `I`, its result satisfies `Q`, and
what it fails with is breakage of the engine. -/
def Action.Delivers (I : Engine η → Prop) (x : Action η α) (Q : α → Prop) : Prop :=
  ∀ s, I s → I (x s).2 ∧
    match (x s).1 with
    | .ok a => Q a
    | .error e => e.problem.isEngine = true

namespace Action.Delivers

variable {I : Engine η → Prop} {x : Action η α} {f : α → Action η β} {Q Q' : α → Prop}
  {S : β → Prop}

/-- Giving an answer delivers what holds of it. -/
theorem done {a : α} (h : Q a) : (Action.done a).Delivers I Q := fun _ hs => ⟨hs, h⟩

/-- A fault of the engine delivers anything. -/
theorem fault {g : Fault} (h : g.isEngine = true) : (Action.fault g).Delivers I Q :=
  fun _ hs => ⟨hs, h⟩

/-- Passing on a result delivers what holds of its success, if its failures are breakage of the
engine. -/
theorem ofProblem {v : Except Problem α} (hok : ∀ a, v = .ok a → Q a)
    (herror : ∀ p, v = .error p → p.isEngine = true) : (Action.ofProblem v).Delivers I Q := by
  cases v with
  | ok a => exact done (hok a rfl)
  | error p => exact fun _ hs => ⟨hs, herror p rfl⟩

/-- A sequence delivers if its parts do. -/
theorem bind (hx : x.Delivers I Q) (hf : ∀ a, Q a → (f a).Delivers I S) :
    (x >>= f).Delivers I S := by
  intro s hs
  obtain ⟨hleft, hresult⟩ := hx s hs
  rcases h : x s with ⟨e | a, t⟩
  · rw [h] at hleft hresult
    rw [Action.bind_of_error h]
    exact ⟨hleft, hresult⟩
  · rw [h] at hleft hresult
    rw [Action.bind_of_ok h]
    exact hf a hresult t hleft

/-- Checking a context delivers. -/
theorem checkContext (ctx : ContextId) : (Engine.checkContext ctx).Delivers I fun _ => True := by
  intro s hs
  refine ⟨(Engine.snd_checkContext ctx s).symm ▸ hs, ?_⟩
  rcases hfind : s.contexts.find? ctx with _ | c
  · simp only [Engine.checkContext, hfind]
  · rcases hc : c.check (s.reading c.source) with f | u
    · simp only [Engine.checkContext, hfind, hc]
      -- a context is only ever refused as cancelled
      unfold Context.check at hc
      split at hc
      · obtain rfl := Except.error.inj hc
        rfl
      · cases hc
    · simp only [Engine.checkContext, hfind, hc, Action.ofFault, Action.done]

/-- **Consulting a collaborator delivers what the collaborator answers,** whatever it raises. -/
theorem consult {lookup : Lookup η} {lookupFault : Value → Fault} {ctx : ContextId}
    {subject : Value} {Q : Answer → Prop} (hfault : ∀ v, (lookupFault v).isEngine = true)
    (hlookup : ∀ s, I s → I (lookup ctx subject s).2 ∧
      ∀ a, (lookup ctx subject s).1 = .ok a → Q a) :
    (Resolver.consult lookup lookupFault ctx subject).Delivers I Q := by
  refine .bind (checkContext ctx) fun _ _ => .bind (Q := Q) ?_ fun a ha =>
    .bind (checkContext ctx) fun _ _ => done ha
  intro s hs
  obtain ⟨hleft, hanswer⟩ := hlookup s hs
  rcases h : lookup ctx subject s with ⟨p | a, t⟩ <;> rw [h] at hleft hanswer <;> simp only [h]
  · refine ⟨hleft, ?_⟩
    unfold Resolver.hostFailure
    split
    · assumption
    · exact hfault _
  · exact ⟨hleft, hanswer a rfl⟩

end Action.Delivers

/-! ### Caches in order -/

/-- A compiled policy of texts for a model. -/
def Kept.IsCompiledFor (fingerprint : Text) (k : Kept) : Prop :=
  ∃ c : CompiledPolicy, k = .policy (.strict c) ∧ c.modelFingerprint = fingerprint

/-- A list that was merged from compiled policies of texts. -/
def Kept.IsMerged (k : Kept) : Prop := ∃ cs a, Acl.merge cs = .ok a ∧ k = .acl (.strict a)

/-- **A cache in order for a model:** it is plain, and under the keys of the model it has what
resolvers keep there. -/
structure Cache.InOrder (fingerprint : Text) (c : Cache Deposit) : Prop where
  /-- It is plain. -/
  plain : c.IsPlain
  /-- Compiled policies for the model are under the keys of compiled policies. -/
  policy : ∀ name version e, c.find? (CacheKey.ofPolicy name version fingerprint).normal = some e →
    e.value.value.IsCompiledFor fingerprint
  /-- Merged lists are under the keys of lists. -/
  list : ∀ digest e, c.find? (CacheKey.ofAcl fingerprint digest).normal = some e →
    e.value.value.IsMerged

namespace Cache.InOrder

variable {fingerprint : Text} {c c' : Cache Deposit} {v : Kept}

/-- A plain cache that keeps nothing is in order for every model. -/
theorem of_empty (hc : c.IsPlain) (h : ∀ k, c.find? k = none) : c.InOrder fingerprint :=
  ⟨hc, fun _ _ _ hfind => (by rw [h] at hfind; cases hfind),
    fun _ _ hfind => (by rw [h] at hfind; cases hfind)⟩

/-- A cache that keeps nothing new stays in order. -/
theorem within (h : c.InOrder fingerprint) (hc : c'.Within c) : c'.InOrder fingerprint where
  plain := hc.plain h.plain
  policy name version e' hfind := by
    obtain ⟨e, he, halike⟩ := hc.entries _ e' hfind
    exact halike.value ▸ h.policy name version e he
  list digest e' hfind := by
    obtain ⟨e, he, halike⟩ := hc.entries _ e' hfind
    exact halike.value ▸ h.list digest e he

/-- **A cache stays in order when what belongs under a key is written there.** -/
theorem put (h : c.InOrder fingerprint) {key : CacheKey} (now : Float) (ttl : Option Float)
    (hpolicy : ∀ name version, (CacheKey.ofPolicy name version fingerprint).normal = key.normal →
      v.IsCompiledFor fingerprint)
    (hlist : ∀ digest, (CacheKey.ofAcl fingerprint digest).normal = key.normal → v.IsMerged) :
    (c.put now key.normal (some (EngineCache.deposit c key v)) ttl).2.InOrder fingerprint where
  plain := Cache.isPlain_put h.plain now _ _ ttl
  policy name version e hfind := by
    rcases Cache.find?_put h.plain hfind with ⟨hkey, -, hvalue, -⟩ | ⟨hold, -⟩
    · exact hvalue ▸ hpolicy name version hkey
    · exact h.policy name version e hold
  list digest e hfind := by
    rcases Cache.find?_put h.plain hfind with ⟨hkey, -, hvalue, -⟩ | ⟨hold, -⟩
    · exact hvalue ▸ hlist digest hkey
    · exact h.list digest e hold

/-- A cache is in order after a compiled form is kept. -/
theorem put_policy (h : c.InOrder fingerprint) (hv : v.IsCompiledFor fingerprint)
    (name version : Value) (now : Float) (ttl : Option Float) :
    (c.put now (CacheKey.ofPolicy name version fingerprint).normal (some (EngineCache.deposit c
      (CacheKey.ofPolicy name version fingerprint) v)) ttl).2.InOrder fingerprint :=
  h.put now ttl (fun _ _ _ => hv) fun _ hkey =>
    absurd hkey.symm (CacheKey.normal_ofPolicy_ne_ofAcl _ _ _ _ _)

/-- A cache is in order after a list is kept. -/
theorem put_list (h : c.InOrder fingerprint) (hv : v.IsMerged) (digest : Text) (now : Float)
    (ttl : Option Float) :
    (c.put now (CacheKey.ofAcl fingerprint digest).normal (some (EngineCache.deposit c
      (CacheKey.ofAcl fingerprint digest) v)) ttl).2.InOrder fingerprint :=
  h.put now ttl (fun _ _ hkey => absurd hkey (CacheKey.normal_ofPolicy_ne_ofAcl _ _ _ _ _))
    fun _ _ => hv

end Cache.InOrder

namespace Resolver

variable {r : Resolver} {s t : Engine η} {id : CacheId} {key : CacheKey}

/-- **An engine in order for a resolver:** its two caches, which may be one, are in order for its
model.  Other keys and other caches may have anything. -/
structure InOrder (r : Resolver) (s : Engine η) : Prop where
  /-- The cache for compiled policies. -/
  policies : (s.cache r.policyCache).InOrder r.model.fingerprint
  /-- The cache for lists. -/
  lists : (s.cache r.aclCache).InOrder r.model.fingerprint

/-- Where the caches stay as they are, they stay in order. -/
theorem InOrder.of_caches_eq (h : r.InOrder s) (ht : t.caches = s.caches) : r.InOrder t := by
  have hcache : ∀ id, t.cache id = s.cache id := fun id => by simp only [Engine.cache, ht]
  exact ⟨hcache _ ▸ h.policies, hcache _ ▸ h.lists⟩

/-- Where one cache is replaced by one in order, all stay in order. -/
theorem InOrder.setCache (h : r.InOrder s) (id : CacheId) {c : EngineCache}
    (hc : (s.cache id).InOrder r.model.fingerprint → c.InOrder r.model.fingerprint) :
    r.InOrder (s.setCache id c) := by
  have hother : ∀ id', (s.cache id').InOrder r.model.fingerprint →
      ((s.setCache id c).cache id').InOrder r.model.fingerprint := by
    intro id' hid'
    rw [Engine.cache_setCache]
    split
    · next hsame => exact hc (hsame ▸ hid')
    · exact hid'
  exact ⟨hother _ h.policies, hother _ h.lists⟩

/-- **Looking up a key that can be looked up** delivers nothing or what the cache has there. -/
theorem delivers_cacheGet {P : Kept → Prop} (hkey : key.normal.unfit? = none)
    (hplain : ∀ s : Engine η, r.InOrder s → (s.cache id).IsPlain)
    (hfound : ∀ (s : Engine η) e, r.InOrder s → (s.cache id).find? key.normal = some e →
      P e.value.value) :
    (Engine.cacheGet id key : Action η _).Delivers r.InOrder fun found =>
      ∀ kept, found = some kept → P kept := by
  intro s hs
  refine ⟨hs.setCache id fun hc => hc.within (Cache.get_within hc.plain s.clock key.normal), ?_⟩
  rw [Engine.fst_cacheGet (hplain s hs) hkey]
  rcases hfind : ((s.cache id).find? key.normal).filter fun e => !e.isExpired s.clock with _ | e
  · rw [hfind]
    exact nofun
  · rw [hfind]
    rintro kept ⟨⟩
    exact hfound s e hs (Option.filter_eq_some_iff.1 hfind).1

/-- **Writing what leaves caches in order** delivers. -/
theorem delivers_cachePut {v : Kept} {ttl : Option Float} (hkey : key.normal.unfit? = none)
    (hplain : ∀ s : Engine η, r.InOrder s → (s.cache id).IsPlain)
    (hput : ∀ (c : Cache Deposit) now, c.InOrder r.model.fingerprint →
      (c.put now key.normal (some (EngineCache.deposit c key v)) ttl).2.InOrder
        r.model.fingerprint) :
    (Engine.cachePut id key (some v) ttl : Action η _).Delivers r.InOrder fun _ => True := by
  intro s hs
  refine ⟨hs.setCache id fun hc => hput _ s.clock hc, ?_⟩
  rw [Engine.fst_cachePut (hplain s hs) hkey]
  trivial

end Resolver

/-! ### Answers in order -/

/-- **An answer that is what it passes for as a token:** the names of its policies can be told
apart. -/
def Answer.ListsNames (a : Answer) : Prop :=
  ∀ v, a.policies? = some v → ∃ names, Token.distinctNames v = .ok names

/-- **An answer that is what it passes for as a policy:** it consists of texts, and its version can
be part of a key. -/
def Answer.OffersTexts (a : Answer) : Prop :=
  ∀ o, a.policy? = some o → (∃ p, o.strict? = some p) ∧ o.version.isNested = false

/-- Every token is what it passes for. -/
theorem Answer.listsNames_token (t : Token) : (token t).ListsNames := by
  rintro v hv
  obtain rfl := Option.some.inj hv
  exact ⟨_, Value.distinctMembers_texts t.policies⟩

/-- Every policy is what it passes for, if its version can be part of a key. -/
theorem Answer.offersTexts_policy {p : Policy} (hp : p.version.isNested = false) :
    (policy p).OffersTexts := by
  rintro o ho
  obtain rfl := Option.some.inj ho
  exact ⟨⟨p, OfferedPolicy.strict?_ofPolicy p⟩, hp⟩

/-- **A host that answers in order:** its tokens and policies are what they pass for, and the caches
of a resolver stay in order while it is consulted.  It may answer with nothing or with a thing of
another kind, raise any problem and do all else to the engine. -/
structure Host.AnswersInOrder (h : Host η) (r : Resolver) : Prop where
  /-- The collaborator for secrets. -/
  token : ∀ ctx secret s, r.InOrder s → r.InOrder (h.token ctx secret s).2 ∧
    ∀ a, (h.token ctx secret s).1 = .ok a → a.ListsNames
  /-- The collaborator for policies. -/
  policy : ∀ ctx name s, r.InOrder s → r.InOrder (h.policy ctx name s).2 ∧
    ∀ a, (h.policy ctx name s).1 = .ok a → a.OffersTexts

/-! ### Compiling and merging -/

/-- Requested names are refused as unknown only. -/
theorem Definition.isEngine_of_expandNames {d : Definition} {expansions : NameMap NameSet}
    {resource : Text} {names : List Text} {found : NameSet} {f : Fault}
    (h : d.expandNames expansions resource names found = .error f) : f.isEngine = true := by
  induction names generalizing found with
  | nil => cases h
  | cons name rest ih =>
    rw [expandNames] at h
    split at h
    · next f' hname =>
      obtain rfl := Except.error.inj h
      unfold expandName at hname
      split at hname
      · cases hname
      · split at hname
        · cases hname
        · obtain rfl := Except.error.inj hname
          rfl
    · exact ih h

/-- A rule is refused as breakage of the engine. -/
theorem Rule.isEngine_of_compile {m : ValidModel} {policy : Text} {r : Rule} {f : Fault}
    (h : r.compile m policy = .error f) : f.isEngine = true := by
  unfold compile at h
  split at h
  · obtain rfl := Except.error.inj h
    rfl
  · split at h
    · cases h
    · obtain rfl := Except.error.inj h
      rfl
    · next hnames =>
      obtain rfl := Except.error.inj h
      exact Definition.isEngine_of_expandNames hnames

/-- Rules are refused as breakage of the engine. -/
theorem Rule.isEngine_of_compileEach {m : ValidModel} {policy : Text} {rules : List Rule}
    {f : Fault} (h : compileEach m policy rules = .error f) : f.isEngine = true := by
  induction rules with
  | nil => cases h
  | cons r rest ih =>
    rw [compileEach] at h
    split at h
    · next hr => exact isEngine_of_compile (Except.error.inj h ▸ hr)
    · split at h
      · next hrest => exact ih (Except.error.inj h ▸ hrest)
      · cases h

/-- **A policy of texts compiles, or its fault is breakage.** -/
theorem Policy.isEngine_of_compile {m : ValidModel} {p : Policy} {f : Fault}
    (h : p.compile m = .error f) : f.isEngine = true := by
  unfold compile at h
  split at h
  · next hrules => exact Rule.isEngine_of_compileEach (Except.error.inj h ▸ hrules)
  · cases h

namespace OfferedPolicy

variable {m : ValidModel} {o : OfferedPolicy}

/-- **A policy of texts compiles to one for the model,** or what it fails with is breakage. -/
theorem compile_outcome (ho : ∃ p, o.strict? = some p) : match o.compile m with
    | .ok c => ∃ c', c = .strict c' ∧ c'.modelFingerprint = m.fingerprint
    | .error q => q.isEngine = true := by
  obtain ⟨p, hp⟩ := ho
  rw [compile_of_strict hp]
  rcases hc : p.compile m with f | c
  · exact Policy.isEngine_of_compile hc
  · exact ⟨c, rfl, Policy.modelFingerprint_of_compile hc⟩

/-- A policy of texts whose version can be part of a key is kept under such a version, its own or a
digest. -/
theorem exists_cacheVersion (ho : ∃ p, o.strict? = some p) (hversion : o.version.isNested = false) :
    ∃ version, o.cacheVersion = .ok version ∧ version.isNested = false := by
  obtain ⟨p, hp⟩ := ho
  unfold cacheVersion digest
  split
  · rw [hp]
    exact ⟨_, rfl, rfl⟩
  · exact ⟨_, rfl, hversion⟩

end OfferedPolicy

namespace Resolver

variable {r : Resolver} {h : Host η} {ctx : ContextId}

/-- **What was fetched in order:** a compiled policy of texts for a model, and if it is to be kept,
then under a key that can be looked up. -/
structure Fetched.InOrder (fingerprint : Text) (f : Fetched) : Prop where
  /-- It is a compiled policy of texts for the model. -/
  compiled : f.kept.IsCompiledFor fingerprint
  /-- It can be kept under a key of compiled policies. -/
  keyed : ∀ key c, f = .fresh key c → key.normal.unfit? = none ∧
    ∃ name version, key = .ofPolicy name version fingerprint

/-- **What was fetched in order can be merged.** -/
theorem Fetched.exists_merge {fingerprint : Text} {l : List Fetched}
    (hl : ∀ f ∈ l, f.InOrder fingerprint) :
    ∃ cs a, Acl.merge cs = .ok a ∧ merge l = .ok (.strict a) := by
  obtain ⟨cs, hkept, hmodel⟩ : ∃ cs : List CompiledPolicy,
      List.Forall₂ (fun f c => f.kept = .policy c) l (cs.map .strict) ∧
        ∀ c ∈ cs, c.modelFingerprint = fingerprint := by
    induction l with
    | nil => exact ⟨[], .nil, nofun⟩
    | cons f rest ih =>
      obtain ⟨hf, hrest⟩ := List.forall_mem_cons.1 hl
      obtain ⟨c, hc, hcmodel⟩ := hf.compiled
      obtain ⟨cs, hkept, hmodel⟩ := ih hrest
      exact ⟨c :: cs, .cons hc hkept, List.forall_mem_cons.2 ⟨hcmodel, hmodel⟩⟩
  obtain ⟨a, ha⟩ := Acl.exists_merge hmodel
  refine ⟨cs, a, ha, ?_⟩
  rw [Fetched.merge_eq hkept, AnyAcl.merge_strict, ha]
  rfl

/-! ### Resolutions -/

section Resolving

variable (hh : h.AnswersInOrder r)
include hh

/-- Fetching a token delivers a list of names that can be told apart. -/
theorem delivers_fetchToken (secret : Text) :
    (fetchToken (r.provision h) ctx secret).Delivers r.InOrder
      fun v => ∃ names, Token.distinctNames v = .ok names := by
  refine .bind (.consult (fun _ => rfl) (hh.token ctx (.text secret))) fun a ha => ?_
  rcases hpolicies : a.policies? with _ | v
  · exact .fault rfl
  · exact .done (ha v hpolicies)

/-- Fetching a policy delivers a policy of texts with a version that can be part of a key. -/
theorem delivers_fetchPolicy (name : Value) :
    (fetchPolicy (r.provision h) ctx name).Delivers r.InOrder
      fun o => (∃ p, o.strict? = some p) ∧ o.version.isNested = false := by
  refine .bind (.consult (fun _ => rfl) (hh.policy ctx name)) fun a ha => ?_
  rcases hpolicy : a.policy? with _ | o
  · exact .fault rfl
  · exact .done (ha o hpolicy)

/-- **What is fetched for a name that can be part of a key** is in order. -/
theorem delivers_fetchCompiled {name : Value} (hname : name.isNested = false) :
    (fetchCompiled (r.provision h) r ctx name).Delivers r.InOrder
      fun f => f.InOrder r.model.fingerprint := by
  refine .bind (delivers_fetchPolicy hh name) fun o ho => ?_
  obtain ⟨htexts, hversion⟩ := ho
  obtain ⟨version, hcache, hnested⟩ := OfferedPolicy.exists_cacheVersion htexts hversion
  have hcompile := OfferedPolicy.compile_outcome (m := r.model) htexts
  have hkey := CacheKey.unfit?_ofPolicy hname hnested r.model.fingerprint
  rw [hcache, Action.ofProblem_ok_bind]
  refine .bind (delivers_cacheGet hkey (fun s hs => hs.policies.plain) fun s e hs hfind =>
    hs.policies.policy name version e hfind) fun found hfound => ?_
  rcases found with _ | kept
  · refine .bind (.checkContext ctx) fun _ _ => .bind (Q := fun c => ∃ c' : CompiledPolicy,
      c = .strict c' ∧ c'.modelFingerprint = r.model.fingerprint) (.ofProblem ?_ ?_) ?_
    · intro c hc
      rwa [hc] at hcompile
    · intro q hq
      rwa [hq] at hcompile
    · rintro _ ⟨c, rfl, hmodel⟩
      refine .done ⟨⟨c, rfl, hmodel⟩, fun key c' hfresh => ?_⟩
      obtain ⟨rfl, -⟩ := Fetched.fresh.inj hfresh
      exact ⟨hkey, name, version, rfl⟩
  · exact .done ⟨hfound kept rfl, nofun⟩

/-- What is fetched for names that can be parts of keys is in order. -/
theorem delivers_fetchEach {names : List Value} (hnames : ∀ name ∈ names, name.isNested = false) :
    (fetchEach (r.provision h) r ctx names).Delivers r.InOrder
      fun l => ∀ f ∈ l, f.InOrder r.model.fingerprint := by
  induction names with
  | nil => exact .done nofun
  | cons name rest ih =>
    obtain ⟨hname, hrest⟩ := List.forall_mem_cons.1 hnames
    refine .bind (delivers_fetchCompiled hh hname) fun f hf => .bind (ih hrest) fun l hl => ?_
    exact .done (List.forall_mem_cons.2 ⟨hf, hl⟩)

omit hh in
/-- What was fetched in order can be kept. -/
theorem delivers_keepEach {l : List Fetched} (hl : ∀ f ∈ l, f.InOrder r.model.fingerprint) :
    (keepEach r l : Action η Unit).Delivers r.InOrder fun _ => True := by
  induction l with
  | nil => exact .done trivial
  | cons f rest ih =>
    obtain ⟨hf, hrest⟩ := List.forall_mem_cons.1 hl
    cases f with
    | cached kept => exact ih hrest
    | fresh key c =>
      obtain ⟨hkey, name, version, rfl⟩ := hf.keyed key c rfl
      exact .bind (delivers_cachePut hkey (fun s hs => hs.policies.plain)
        fun _ now hc => hc.put_policy hf.compiled name version now r.policyTtl) fun _ _ => ih hrest

/-- **What names that can be told apart are resolved to** is a list that was merged from compiled
policies. -/
theorem delivers_resolveNames {v : Value} (hv : ∃ names, Token.distinctNames v = .ok names) :
    (resolveNames (r.provision h) r ctx v).Delivers r.InOrder
      fun a => (Kept.acl a).IsMerged := by
  obtain ⟨names, hnames⟩ := hv
  unfold resolveNames
  rw [hnames, Action.ofProblem_ok_bind]
  refine .bind (delivers_fetchEach hh (Token.isNested_of_distinctNames hnames)) fun l hl =>
    .bind (.checkContext ctx) fun _ _ => ?_
  obtain ⟨cs, b, hb, hmerge⟩ := Fetched.exists_merge hl
  rw [hmerge, Action.ofProblem_ok_bind]
  exact .bind (delivers_keepEach hl) fun _ _ => .done ⟨cs, b, hb, rfl⟩

/-- What data that can be encoded is resolved to is a list that was merged from compiled policies. -/
theorem delivers_resolveSecretUnder {secret : Value} (hsecret : secret.IsEncodable) :
    (resolveSecretUnder (r.provision h) r ctx secret).Delivers r.InOrder
      fun k => k.IsMerged := by
  refine .bind (.checkContext ctx) fun _ _ => ?_
  rcases secret with _ | _ | _ | _ | x | _ | _
  case text =>
    dsimp only
    split
    · exact .fault rfl
    rw [Text.unencodable?_eq_none_iff.2 (hsecret x rfl)]
    have hkey := CacheKey.unfit?_ofAcl r.model.fingerprint (secretDigest x)
    refine .bind (delivers_cacheGet hkey (fun s hs => hs.lists.plain) fun s e hs hfind =>
      hs.lists.list _ e hfind) fun found hfound => ?_
    rcases found with _ | kept
    · refine .bind (delivers_fetchToken hh x) fun v hv =>
        .bind (delivers_resolveNames hh hv) fun a ha => ?_
      exact .bind (delivers_cachePut hkey (fun s hs => hs.lists.plain)
        fun _ now hc => hc.put_list ha (secretDigest x) now r.aclTtl) fun _ _ => .done ha
    · exact .done (hfound kept rfl)
  all_goals exact .fault rfl

/-- **What is resolved for a secret is a list that was merged from compiled policies,** and a
resolution of a secret that can be encoded fails with breakage of the engine if it fails. -/
theorem delivers_resolveSecret {secret : Value} (hsecret : secret.IsEncodable)
    (c : Option ContextId) :
    (resolveSecret (r.provision h) r secret c).Delivers r.InOrder
      fun k => k.IsMerged := by
  intro s hs
  have hopen : r.InOrder (s.opened c).2 := hs.of_caches_eq (Engine.caches_opened c s)
  obtain ⟨hleft, hresult⟩ := delivers_resolveSecretUnder hh hsecret _ hopen
  rw [resolveSecret, withContext_eq]
  exact ⟨hleft.of_caches_eq rfl, hresult⟩

end Resolving

end Resolver

end Gatehouse
