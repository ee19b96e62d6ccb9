import Gatehouse.Proofs.Cache.Key
import Gatehouse.Proofs.Policy.Names
import Gatehouse.Proofs.Resolver.Rules

/-!
# Resolutions that have got somewhere

A resolution looks at its context again and again, and stops when that is cancelled.  So what it got
from a collaborator, or from a cache after that, it has got under a live context
(`Resolver.live_of_consult`, `Resolver.live_of_fetchEach`).  Main statements: the two ways that the
resolution of a single name can go, by compiling the policy and keeping the compiled form
(`Resolver.resolvePolicies_of_miss`), or by finding one (`Resolver.resolvePolicies_of_find?`).
-/

namespace Gatehouse

namespace Resolver

variable {η : Type} {h : Host η} {r : Resolver} {w : Provision η} {ctx : ContextId}
  {s t u : Engine η}

/-! ### Live contexts -/

/-- A lookup leaves a context live. -/
theorem live_of_cacheGet {id : CacheId} {key : CacheKey} {found : Option Kept}
    (hs : (Engine.checkContext ctx s).1 = .ok ())
    (h : Engine.cacheGet id key s = (.ok found, t)) : (Engine.checkContext ctx t).1 = .ok () := by
  have hsame : (Engine.checkContext ctx (Engine.cacheGet id key s).2).1 =
      (Engine.checkContext ctx s).1 := by
    refine Engine.fst_checkContext_congr ?_ ?_ ?_ ctx <;> rfl
  rw [h, hs] at hsame
  exact hsame

/-- A context is live after a collaborator has answered. -/
theorem live_of_consult {lookup : Lookup η} {fault : Value → Fault} {subject : Value} {a : Answer}
    (h : consult lookup fault ctx subject s = (.ok a, t)) :
    (Engine.checkContext ctx t).1 = .ok () := by
  obtain ⟨⟨⟩, s₁, -, h⟩ := Action.bind_eq_ok_iff.1 h
  obtain ⟨b, s₂, -, h⟩ := Action.bind_eq_ok_iff.1 h
  obtain ⟨⟨⟩, s₃, hcheck, h⟩ := Action.bind_eq_ok_iff.1 h
  obtain rfl : s₃ = t := congrArg Prod.snd h
  obtain rfl : s₂ = s₃ := Engine.eq_of_checkContext hcheck
  exact congrArg Prod.fst hcheck

/-- A context is live after a token was fetched. -/
theorem live_of_fetchToken {secret : Text} {names : Value}
    (h : fetchToken w ctx secret s = (.ok names, t)) : (Engine.checkContext ctx t).1 = .ok () := by
  obtain ⟨a, s₁, hconsult, h⟩ := Action.bind_eq_ok_iff.1 h
  rcases ha : a.policies? with _ | names' <;> rw [ha] at h
  · cases h
  · obtain rfl : s₁ = t := congrArg Prod.snd h
    exact live_of_consult hconsult

/-- A context is live after a policy was fetched. -/
theorem live_of_fetchPolicy {name : Value} {o : OfferedPolicy}
    (h : fetchPolicy w ctx name s = (.ok o, t)) : (Engine.checkContext ctx t).1 = .ok () := by
  obtain ⟨a, s₁, hconsult, h⟩ := Action.bind_eq_ok_iff.1 h
  rcases ha : a.policy? with _ | o' <;> rw [ha] at h
  · cases h
  · obtain rfl : s₁ = t := congrArg Prod.snd h
    exact live_of_consult hconsult

/-- A context is live after a compiled form was fetched. -/
theorem live_of_fetchCompiled {name : Value} {f : Fetched}
    (hw : ∀ o s, (w.compile o s).2 = s) (h : fetchCompiled w r ctx name s = (.ok f, t)) :
    (Engine.checkContext ctx t).1 = .ok () := by
  obtain ⟨o, s₁, hfetch, h⟩ := Action.bind_eq_ok_iff.1 h
  obtain ⟨version, s₂, hversion, h⟩ := Action.bind_eq_ok_iff.1 h
  obtain ⟨found, s₃, hget, h⟩ := Action.bind_eq_ok_iff.1 h
  obtain rfl : s₁ = s₂ := by rw [← Action.snd_ofProblem o.cacheVersion s₁, hversion]
  have hlive := live_of_cacheGet (live_of_fetchPolicy hfetch) hget
  cases found with
  | some kept =>
    obtain rfl : s₃ = t := congrArg Prod.snd h
    exact hlive
  | none =>
    obtain ⟨⟨⟩, s₄, hcheck, h⟩ := Action.bind_eq_ok_iff.1 h
    obtain ⟨c, s₅, hcompile, h⟩ := Action.bind_eq_ok_iff.1 h
    obtain rfl : s₅ = t := congrArg Prod.snd h
    obtain rfl : s₄ = s₅ := by rw [← hw o s₄, hcompile]
    obtain rfl : s₃ = s₄ := Engine.eq_of_checkContext hcheck
    exact hlive

/-- A context is live after compiled forms were fetched, if it was before. -/
theorem live_of_fetchEach {names : List Value} {l : List Fetched}
    (hw : ∀ o s, (w.compile o s).2 = s)
    (hs : (Engine.checkContext ctx s).1 = .ok ()) (h : fetchEach w r ctx names s = (.ok l, t)) :
    (Engine.checkContext ctx t).1 = .ok () := by
  induction names generalizing s l with
  | nil =>
    obtain rfl : s = t := congrArg Prod.snd h
    exact hs
  | cons name rest ih =>
    obtain ⟨f, s₁, hfetch, h⟩ := Action.bind_eq_ok_iff.1 h
    obtain ⟨more, s₂, hmore, h⟩ := Action.bind_eq_ok_iff.1 h
    obtain rfl : s₂ = t := congrArg Prod.snd h
    exact ih (live_of_fetchCompiled hw hfetch) hmore

/-! ### One name -/

variable {name version : Value} {o : OfferedPolicy} {c : AnyCompiled}

/-- **A policy whose compiled form is not in the cache** is compiled. -/
theorem fetchCompiled_of_miss
    (hfetch : fetchPolicy (r.provision h) ctx name s = (.ok o, t))
    (hversion : o.cacheVersion = .ok version)
    (hget : Engine.cacheGet r.policyCache ((r.provision h).policyKey name version) t =
      (.ok none, u)) (hcompile : o.compile r.model = .ok c) :
    fetchCompiled (r.provision h) r ctx name s =
      (.ok (.fresh ((r.provision h).policyKey name version) c), u) := by
  have hlive : (Engine.checkContext ctx u).1 = .ok () :=
    live_of_cacheGet (live_of_fetchPolicy hfetch) hget
  have hcompiled : (r.provision h).compile o u = (.ok c, u) := by
    change Action.ofProblem (o.compile r.model) u = _
    rw [hcompile]
    rfl
  rw [fetchCompiled, Action.bind_of_ok hfetch, hversion, Action.ofProblem_ok_bind,
    Action.bind_of_ok hget]
  exact (Action.bind_of_ok (Engine.checkContext_eq_ok _ hlive)).trans (Action.bind_of_ok hcompiled)

/-- **A compiled form that is in the cache** is what is fetched. -/
theorem fetchCompiled_of_hit {kept : Kept}
    (hfetch : fetchPolicy (r.provision h) ctx name s = (.ok o, t))
    (hversion : o.cacheVersion = .ok version)
    (hget : Engine.cacheGet r.policyCache ((r.provision h).policyKey name version) t =
      (.ok (some kept), u)) :
    fetchCompiled (r.provision h) r ctx name s = (.ok (.cached kept), u) := by
  rw [fetchCompiled, Action.bind_of_ok hfetch, hversion, Action.ofProblem_ok_bind]
  exact Action.bind_of_ok hget

variable {names : Value} (hnames : Token.distinctNames names = .ok [name])
  (hlive : (Engine.checkContext (s.opened none).1 (s.opened none).2).1 = .ok ())

include hnames

/-- The key of a single name can be looked up, if its version can be part of a key. -/
theorem unfit?_policyKey (hnested : version.isNested = false) :
    ((r.provision h).policyKey name version).normal.unfit? = none :=
  CacheKey.unfit?_ofPolicy
    (Token.isNested_of_distinctNames hnames name (List.mem_singleton_self name)) hnested _

include hlive

/-- **The resolution of one name** makes the list of what there is for it. -/
theorem resolvePolicies_of_fetched {f : Fetched}
    (hfetched : fetchCompiled (r.provision h) r (s.opened none).1 name (s.opened none).2 =
      (.ok f, u)) (hlive' : (Engine.checkContext (s.opened none).1 u).1 = .ok ()) :
    resolvePolicies (r.provision h) r names none s =
      let o := (Action.ofProblem (Fetched.merge [f]) >>= fun a =>
        keepEach r [f] >>= fun _ => .done a) u
      (o.1, { o.2 with running := s.running }) := by
  have heach : fetchEach (r.provision h) r (s.opened none).1 [name] (s.opened none).2 =
      (.ok [f], u) := by
    rw [fetchEach, Action.bind_of_ok hfetched]
    rfl
  rw [resolvePolicies, withContext_eq, Action.bind_of_ok (Engine.checkContext_eq_ok _ hlive),
    resolveNames, hnames, Action.ofProblem_ok_bind, Action.bind_of_ok heach,
    Action.bind_of_ok (Engine.checkContext_eq_ok _ hlive')]
  rfl

/-- **A policy that is not in the cache is compiled and kept.** -/
theorem resolvePolicies_of_miss {a : AnyAcl} {m : MemoryCache CacheKey Deposit}
    (hfetch : fetchPolicy (r.provision h) (s.opened none).1 name (s.opened none).2 = (.ok o, t))
    (hversion : o.cacheVersion = .ok version) (hnested : version.isNested = false)
    (hget : Engine.cacheGet r.policyCache ((r.provision h).policyKey name version) t =
      (.ok none, u)) (hmemory : u.cache r.policyCache = .memory m)
    (hcompile : o.compile r.model = .ok c) (hmerge : AnyAcl.merge [c] = .ok a) :
    (resolvePolicies (r.provision h) r names none s).1 = .ok a ∧
      ∃ e, ((resolvePolicies (r.provision h) r names none s).2.cache r.policyCache).find?
          ((r.provision h).policyKey name version).normal = some e ∧
        e.value.value = .policy c ∧ e.expiresAt = m.expiry u.clock r.policyTtl := by
  let key := (r.provision h).policyKey name version
  let v := (Engine.cachePut r.policyCache key (some (.policy c)) r.policyTtl u).2
  have hkey : key.normal.unfit? = none := unfit?_policyKey hnames hnested
  have hput : Engine.cachePut r.policyCache key (some (.policy c)) r.policyTtl u = (.ok (), v) :=
    Prod.ext (Engine.fst_cachePut (hmemory ▸ trivial) hkey _ _) rfl
  have hkeep : keepEach r [.fresh key c] u = (.ok (), v) := Action.bind_of_ok hput
  have hmerged : Fetched.merge [.fresh key c] = .ok a := hmerge
  rw [resolvePolicies_of_fetched hnames hlive (fetchCompiled_of_miss hfetch hversion hget hcompile)
    (live_of_cacheGet (live_of_fetchPolicy hfetch) hget), hmerged, Action.ofProblem_ok_bind,
    Action.bind_of_ok hkeep]
  exact ⟨rfl, Engine.exists_find?_cachePut hmemory hkey (.policy c) r.policyTtl⟩

/-- **A compiled form that is found** is what the list is made of, and the host is asked for nothing
more. -/
theorem resolvePolicies_of_find? {e : CacheEntry Deposit}
    (hfetch : fetchPolicy (r.provision h) (s.opened none).1 name (s.opened none).2 = (.ok o, t))
    (hversion : o.cacheVersion = .ok version) (hnested : version.isNested = false)
    (hplain : (t.cache r.policyCache).IsPlain)
    (hfind : (t.cache r.policyCache).find?
      ((r.provision h).policyKey name version).normal = some e)
    (hfresh : e.isExpired t.clock = false) (hc : e.value.value = .policy c) :
    (resolvePolicies (r.provision h) r names none s).1 =
        (AnyAcl.merge [c]).mapError .ofProblem ∧
      (resolvePolicies (r.provision h) r names none s).2.host = t.host := by
  let key := (r.provision h).policyKey name version
  let u := (Engine.cacheGet r.policyCache key t).2
  have hget : Engine.cacheGet r.policyCache key t = (.ok (some (.policy c)), u) := by
    have hlook := Engine.fst_cacheGet hplain (unfit?_policyKey (h := h) (r := r) hnames hnested)
    rw [hfind] at hlook
    exact Prod.ext (hlook.trans (by simp [Option.filter_some, hfresh, hc])) rfl
  have hmerged : Fetched.merge [.cached (.policy c)] = AnyAcl.merge [c] := rfl
  rw [resolvePolicies_of_fetched hnames hlive (fetchCompiled_of_hit hfetch hversion hget)
    (live_of_cacheGet (live_of_fetchPolicy hfetch) hget), hmerged]
  rcases AnyAcl.merge [c] with p | a <;> exact ⟨rfl, rfl⟩

end Resolver

end Gatehouse
