import Gatehouse.Proofs.Acl.Decision
import Gatehouse.Proofs.Policy.Agreement
import Gatehouse.Proofs.Policy.Names
import Gatehouse.Proofs.Resolver.Anew
import Gatehouse.Proofs.Resolver.Founded
import Gatehouse.Proofs.Resolver.Live

/-!
# Caches of compiled policies make no difference

A compiled policy in a cache may have been stored by another resolver, for another model, and before
the host changed its mind.  As long as the host keeps to what versions are for (`Faithful`), what is
found under a key is nevertheless what the policy at hand compiles to
(`Engine.IsFounded.compiled_of_cacheGet`).  Main statement: resolutions have the outcome that they
have without caches, and consult the host in the same way (`Resolver.resolve_eq_anew`).

What a host is asked to keep to is no formality.  Where its versions cannot be part of a key, where
its policies hold data other than texts, and where the digest of one content is that of another, the
caches do make a difference (`Resolver.resolvePolicies_exchanged`).
-/

namespace Gatehouse

open Relation (ReflTransGen)

variable {η : Type} {cast : Cast} {h : Host (Chronicle η)} {r : Resolver}
  {s t : Engine (Chronicle η)} {ctx : ContextId} {events events' : List Event}

/-! ### What is promised -/

/-- The host answered with a policy of texts when it was asked for a name. -/
def Offered (events : List Event) (name : Value) (p : Policy) : Prop :=
  ∃ o, .answered name o ∈ events ∧ o.strict? = some p

/-- **A host that keeps to what versions are for.** -/
structure Faithful (events : List Event) : Prop where
  /-- Every policy consists of texts, and its version can be part of a key. -/
  strict : ∀ name o, .answered name o ∈ events →
    ∃ p, o.strict? = some p ∧ p.version.isNested = false
  /-- Policies that were answered for the same name with the same version have the same content. -/
  versions : ∀ name name' p p', Offered events name p → Offered events name' p' →
    name.same name' = true → p.version.isVacant = false → p.version.same p'.version = true →
      p.Agrees p'
  /-- A version is not the digest of other content. -/
  digests : ∀ name name' p p', Offered events name p → Offered events name' p' →
    p.version = .text p'.digest → p.Agrees p'
  /-- Different contents have different digests. -/
  contents : ∀ name name' p p', Offered events name p → Offered events name' p' →
    p.digest = p'.digest → p.Agrees p'

namespace Faithful

/-- What is promised of a whole record is promised of its beginning. -/
theorem anti (hf : Faithful events') (hsub : ∀ e ∈ events, e ∈ events') : Faithful events := by
  have hoffered : ∀ {name p}, Offered events name p → Offered events' name p :=
    fun ⟨o, ho, hp⟩ => ⟨o, hsub _ ho, hp⟩
  refine ⟨fun name o ho => hf.strict name o (hsub _ ho), fun name name' p p' hp hp' =>
    hf.versions name name' p p' (hoffered hp) (hoffered hp'), fun name name' p p' hp hp' =>
    hf.digests name name' p p' (hoffered hp) (hoffered hp'), fun name name' p p' hp hp' =>
    hf.contents name name' p p' (hoffered hp) (hoffered hp')⟩

/-- A host that has one policy only keeps to what versions are for. -/
theorem of_single {p : Policy} (hversion : p.version.isNested = false)
    (hevents : ∀ name o, .answered name o ∈ events → o = .ofPolicy p) : Faithful events := by
  have hoffered : ∀ {name p'}, Offered events name p' → p' = p := by
    rintro name p' ⟨o, ho, hp'⟩
    rw [hevents name o ho, OfferedPolicy.strict?_ofPolicy] at hp'
    exact (Option.some.inj hp').symm
  have hagrees : ∀ {name name' q q'}, Offered events name q → Offered events name' q' →
      q.Agrees q' := fun hq hq' => by
    rw [hoffered hq, hoffered hq']
    exact Policy.agrees_of_eq rfl rfl
  refine ⟨fun name o ho => ⟨p, ?_, hversion⟩, fun _ _ _ _ hq hq' _ _ _ => hagrees hq hq',
    fun _ _ _ _ hq hq' _ => hagrees hq hq', fun _ _ _ _ hq hq' _ => hagrees hq hq'⟩
  rw [hevents name o ho, OfferedPolicy.strict?_ofPolicy]

/-- A host that keeps to what versions are for at the end of a run did so at its beginning. -/
theorem of_steps (hf : Faithful t.host.events) (hsteps : ReflTransGen (Step cast) s t) :
    Faithful s.host.events :=
  hf.anti fun _ he => (events_suffix_of_steps hsteps).subset he

/-- **Policies that are kept under the same key have the same content.** -/
theorem agrees (hf : Faithful events) {name name' : Value} {p p' : Policy}
    (hp : Offered events name p) (hp' : Offered events name' p')
    (hname : name.same name' = true) (hversion : p.cacheVersion.same p'.cacheVersion = true) :
    p.Agrees p' := by
  simp only [Policy.cacheVersion] at hversion
  by_cases hv : p.version.isVacant = true <;> by_cases hv' : p'.version.isVacant = true
  · rw [if_pos hv, if_pos hv'] at hversion
    exact hf.contents name name' p p' hp hp' (Value.text.inj (Value.text_eq_of_same hversion))
  · rw [if_pos hv, if_neg hv', Value.same_comm] at hversion
    exact (hf.digests name' name p' p hp' hp (Value.text_eq_of_same hversion)).symm
  · rw [if_neg hv, if_pos hv'] at hversion
    exact hf.digests name name' p p' hp hp' (Value.text_eq_of_same hversion)
  · rw [if_neg hv, if_neg hv'] at hversion
    exact hf.versions name name' p p' hp hp' hname (by simpa using hv) hversion

end Faithful

/-! ### What is found is what would be compiled -/

/-- **A compiled policy that is found in a cache** is what the policy at hand compiles to. -/
theorem Engine.IsFounded.compiled_of_cacheGet (hs : s.IsFounded cast) (hcast : cast.IsValidated)
    (hr : r ∈ cast.members) (hpolicies : r.policyCache ∈ cast.caches)
    (hf : Faithful s.host.events) {name version : Value} {o : OfferedPolicy}
    (ho : .answered name o ∈ s.host.events) (hversion : o.cacheVersion = .ok version) {kept : Kept}
    (hget : (Engine.cacheGet r.policyCache (.ofPolicy name version r.model.fingerprint) s).1 =
      .ok (some kept)) : ∃ c, kept = .policy c ∧ o.compile r.model = .ok c := by
  obtain ⟨e, hfind, -, rfl⟩ := Engine.exists_of_cacheGet (hs.plain _ hpolicies) hget
  cases hs.entry _ hpolicies _ e hfind with
  | list _ _ _ key => exact absurd key (CacheKey.normal_ofPolicy_ne_ofAcl _ _ _ _ _)
  | @policy r' name' version' o' c hr' ho' hversion' hcompile key hvalue =>
    refine ⟨c, hvalue, hcompile ▸ ?_⟩
    obtain ⟨hname, hsame, hfingerprint⟩ := CacheKey.normal_ofPolicy_eq_iff.1 key
    obtain ⟨p, hp, -⟩ := hf.strict name o ho
    obtain ⟨p', hp', -⟩ := hf.strict name' o' ho'
    -- the versions are those of the two policies, so these have the same content
    rw [OfferedPolicy.cacheVersion_of_strict hp, Except.ok.injEq] at hversion
    rw [OfferedPolicy.cacheVersion_of_strict hp', Except.ok.injEq] at hversion'
    rw [← hversion, ← hversion'] at hsame
    have hagree := hf.agrees ⟨o, ho, hp⟩ ⟨o', ho', hp'⟩ hname hsame
    have hfp : r.model.fingerprint = r'.model.fingerprint :=
      Value.text.inj (Value.text_eq_of_same hfingerprint)
    rw [OfferedPolicy.compile_of_strict hp, OfferedPolicy.compile_of_strict hp',
      Policy.compile_congr (hcast.models r hr) (hcast.models r' hr')
        (hcast.definitions r hr r' hr' hfp) hfp hagree]

/-! ### Step by step -/

namespace Resolver

/-- What was fetched is a compiled policy that a resolution without caches compiles anew, and what
is to be stored has a key that can be looked up. -/
structure Fetched.Gives (f : Fetched) (c : AnyCompiled) : Prop where
  /-- It is the compiled policy. -/
  kept : f.kept = .policy c
  /-- The key can be looked up. -/
  fits : ∀ key c', f = .fresh key c' → key.normal.unfit? = none

/-- Only fetching the policy does anything to the host. -/
theorem host_fetchCompiled (w : Provision η) (r : Resolver)
    (hw : ∀ o (s : Engine η), (w.compile o s).2.host = s.host) (name : Value) (s : Engine η) :
    (fetchCompiled w r ctx name s).2.host = (fetchPolicy w ctx name s).2.host := by
  refine Action.host_bind_left (fun o => Action.host_bind (fun s => ?_) fun version =>
    Action.host_bind (fun _ => rfl) fun found => ?_) s
  · rw [Action.snd_ofProblem]
  · cases found with
    | some kept => exact fun _ => rfl
    | none =>
      refine Action.host_bind (fun s => ?_) fun _ => Action.host_bind (hw o) fun _ _ => rfl
      rw [Engine.snd_checkContext]

/-- Storing what was fetched leaves the host alone. -/
theorem host_keepEach (r : Resolver) (l : List Fetched) (s : Engine η) :
    (keepEach r l s).2.host = s.host := by
  induction l generalizing s with
  | nil => rfl
  | cons f rest ih =>
    cases f with
    | cached kept => exact ih s
    | fresh key c => exact Action.host_bind (fun _ => rfl) (fun _ => ih) s

/-- What was fetched can be stored. -/
theorem fst_keepEach {l : List Fetched} {cs : List AnyCompiled} {s : Engine η}
    (h : List.Forall₂ Fetched.Gives l cs) (hs : (s.cache r.policyCache).IsPlain) :
    (keepEach r l s).1 = .ok () := by
  induction h generalizing s with
  | nil => rfl
  | @cons f c l cs hf _ ih =>
    cases f with
    | cached kept => exact ih hs
    | fresh key c' =>
      have hput := Engine.fst_cachePut hs (hf.fits key c' rfl) (.policy c') r.policyTtl
      have hplain : ((Engine.cachePut r.policyCache key (some (.policy c')) r.policyTtl s).2.cache
          r.policyCache).IsPlain := by
        rw [Engine.snd_cachePut, Engine.cache_setCache_self]
        exact Cache.isPlain_put hs _ _ _ _
      exact (congrArg Prod.fst (Action.bind_of_ok (Prod.ext hput rfl))).trans (ih hplain)

/-- Once all is fetched, resolving names leaves the host alone. -/
theorem host_resolveNames (r : Resolver) (host : Host η) {names : Value} {distinct : List Value}
    (hdistinct : Token.distinctNames names = .ok distinct) (s : Engine η) :
    (resolveNames (r.provision host) r ctx names s).2.host =
      (fetchEach (r.provision host) r ctx distinct s).2.host := by
  simp only [resolveNames, hdistinct, Action.ofProblem_ok_bind]
  refine Action.host_bind_left (fun l => Action.host_bind (fun s => ?_) fun _ =>
    Action.host_bind (fun s => ?_) fun acl => Action.host_bind (host_keepEach r l) fun _ _ => rfl) s
  · rw [Engine.snd_checkContext]
  · rw [Action.snd_ofProblem]

/-- The states of the host are the same. -/
def SameHost (s t : Engine η) : Prop := s.host = t.host

section Following

variable {g : Glances (Chronicle η)} {R : Engine (Chronicle η) → Engine (Chronicle η) → Prop}
  (m : Mirrors h r g R) (hh : h.GoesBySteps cast) (hcast : cast.IsValidated)
  (hr : r ∈ cast.members) (hpolicies : r.policyCache ∈ cast.caches)

include m hh hcast hr hpolicies

/-- **Fetching the compiled form of a policy** gives what compiling it anew gives. -/
theorem fetchCompiled_eq_anew (hs : s.IsFounded cast) (hst : R s t) {name : Value}
    (hname : name.isNested = false)
    (hf : Faithful (fetchCompiled (r.provision h.noting) r ctx name s).2.host.events) :
    Matches R Fetched.Gives (fetchCompiled (r.provision h.noting) r ctx name s)
      (compileAnew g (r.provision h.noting) ctx name t) := by
  rw [host_fetchCompiled _ _ fun o s => by rw [provision, Action.snd_ofProblem]] at hf
  refine .bind (m.fetchPolicy name hst) (fun _ _ h => h) ?_
  rintro o _ u t₁ hfetch rfl hu
  obtain ⟨hsteps, hanswered⟩ := (meets_fetchPolicy hh name).of_eq trivial hfetch
  rw [hfetch] at hf
  have ho := hanswered o rfl
  have hfounded : u.IsFounded cast := isFounded_of_steps hsteps hs
  obtain ⟨p, hp, hnested⟩ := hf.strict name o ho
  have hversion := OfferedPolicy.cacheVersion_of_strict hp
  have hkey : ((r.provision h.noting).policyKey name p.cacheVersion).normal.unfit? = none := by
    refine CacheKey.unfit?_ofPolicy hname ?_ _
    unfold Policy.cacheVersion
    split
    · rfl
    · exact hnested
  have hlookup := Engine.fst_cacheGet (hfounded.plain _ hpolicies) hkey
  rcases hget : Engine.cacheGet r.policyCache ((r.provision h.noting).policyKey name p.cacheVersion)
    u with ⟨e | found, u₁⟩
  · rw [hget] at hlookup
    cases hlookup
  obtain ⟨t₂, hglance, hu₁⟩ := m.glancePolicy name o _ u t₁ u₁ found hu hversion hget
  rw [Action.bind_of_ok hglance, hversion]
  refine (Action.bind_of_ok hget).symm ▸ ?_
  cases found with
  | some kept =>
    obtain ⟨c, rfl, hc⟩ := hfounded.compiled_of_cacheGet hcast hr hpolicies hf ho hversion
      (congrArg Prod.fst hget)
    simp only [provision, hc]
    refine .ok ⟨rfl, fun key c' heq => ?_⟩ hu₁
    cases heq
  | none =>
    have hlive := live_of_cacheGet (live_of_fetchPolicy hfetch) hget
    simp only [Action.bind_of_ok (Engine.checkContext_eq_ok ctx hlive)]
    simp only [provision]
    rcases o.compile r.model with p | c
    · exact .error _ hu₁
    · refine .ok ⟨rfl, fun key c' heq => ?_⟩ hu₁
      cases heq
      exact hkey

/-- **Fetching compiled policies one after the other** gives what compiling them anew gives. -/
theorem fetchEach_eq_anew {names : List Value} (hs : s.IsFounded cast) (hst : R s t)
    (hnames : ∀ name ∈ names, name.isNested = false)
    (hf : Faithful (fetchEach (r.provision h.noting) r ctx names s).2.host.events) :
    Matches R (List.Forall₂ Fetched.Gives) (fetchEach (r.provision h.noting) r ctx names s)
      (compileEachAnew g (r.provision h.noting) ctx names t) := by
  induction names generalizing s t with
  | nil => exact .ok .nil hst
  | cons name rest ih =>
    rw [List.forall_mem_cons] at hnames
    have hmeets : (fetchCompiled (r.provision h.noting) r ctx name).Meets _ _ _ :=
      meets_fetchCompiled hh name
    have hmore : ∀ f : Fetched, (fetchEach (r.provision h.noting) r ctx rest >>= fun more =>
        Action.done (f :: more)).Meets (Step cast) (f.Justified r ·.host.events) fun _ _ => True :=
      fun f => .bind ((meets_fetchEach hh rest).mono (fun _ _ => trivial) fun _ _ _ => trivial)
        fun _ => .done fun _ _ => trivial
    have hfirst := hf.of_steps (hmeets.rest hmore trivial)
    refine .bind (fetchCompiled_eq_anew m hh hcast hr hpolicies hs hst hnames.1 hfirst)
      (fun _ _ h => h) fun f c s₁ t₁ hfetch hgives h₁ => ?_
    have hs₁ : s₁.IsFounded cast := isFounded_of_steps (hmeets.of_eq trivial hfetch).1 hs
    have hf₁ : Faithful (fetchEach (r.provision h.noting) r ctx rest s₁).2.host.events := by
      rw [fetchEach, Action.bind_of_ok hfetch, Action.host_bind_left fun _ _ => rfl] at hf
      exact hf
    exact .bind (ih hs₁ h₁ hnames.2 hf₁) (fun _ _ h => h) fun l cs _ _ _ hl h₂ =>
      .ok (.cons hgives hl) h₂

/-- **Resolving names** gives what resolving them anew gives. -/
theorem resolveNames_eq_anew (hs : s.IsFounded cast) (hst : R s t)
    (hlive : (Engine.checkContext ctx s).1 = .ok ()) (names : Value)
    (hf : Faithful (resolveNames (r.provision h.noting) r ctx names s).2.host.events) :
    Matches SameHost Eq (resolveNames (r.provision h.noting) r ctx names s)
      (resolveNamesAnew g (r.provision h.noting) ctx names t) := by
  rcases hdistinct : Token.distinctNames names with p | distinct
  · simp only [resolveNames, resolveNamesAnew, hdistinct]
    exact .error _ (m.host s t hst)
  have hnames := Token.isNested_of_distinctNames hdistinct
  have hw : ∀ o s, ((r.provision h.noting).compile o s).2 = s :=
    fun o s => Action.snd_ofProblem (o.compile r.model) s
  rw [host_resolveNames r h.noting hdistinct] at hf
  simp only [resolveNames, resolveNamesAnew, hdistinct, Action.ofProblem_ok_bind]
  refine .bind (fetchEach_eq_anew m hh hcast hr hpolicies hs hst hnames hf) m.host ?_
  intro l cs s₁ t₁ hfetch hgives h₁
  have hsteps := ((meets_fetchEach hh distinct).of_eq trivial hfetch).1
  have hplain := (isFounded_of_steps hsteps hs).plain _ hpolicies
  have hkeep := fst_keepEach hgives hplain
  have hlive₁ := live_of_fetchEach hw hlive hfetch
  rw [Action.bind_of_ok (Engine.checkContext_eq_ok ctx hlive₁),
    Fetched.merge_eq (hgives.imp fun _ _ hf => hf.kept)]
  rcases AnyAcl.merge cs with p | acl
  · exact .error _ (m.host s₁ t₁ h₁)
  · refine (Action.bind_of_ok (Prod.ext hkeep rfl)).symm ▸ ?_
    exact .ok rfl ((host_keepEach r l s₁).trans (m.host s₁ t₁ h₁))

/-- **Resolving a secret** whose list is not in the cache gives what resolving it anew gives. -/
theorem resolveSecretUnder_eq_anew (hlists : r.aclCache ∈ cast.caches)
    (hs : s.IsFounded cast) (hst : R s t) (secret : Value)
    (hmiss : ∀ x kept, secret = .text x → (Engine.cacheGet r.aclCache
      (.ofAcl r.model.fingerprint (secretDigest x)) s).1 ≠ .ok (some kept))
    (hf : Faithful (resolveSecretUnder (r.provision h.noting) r ctx secret s).2.host.events) :
    Matches SameHost Eq (resolveSecretUnder (r.provision h.noting) r ctx secret s)
      (resolveSecretUnderAnew g (r.provision h.noting) ctx secret t) := by
  refine .bind (m.checkContext ctx hst) m.host fun _ _ s₁ t₁ hcheck _ h₁ => ?_
  obtain rfl : s = s₁ := Engine.eq_of_checkContext hcheck
  unfold resolveSecretUnder at hf
  rw [Action.bind_of_ok hcheck] at hf
  rcases secret with _ | _ | _ | _ | x | _ | _
  case text =>
    dsimp only at hf ⊢
    by_cases hx : x = ""
    · rw [if_pos hx, if_pos hx]
      exact .error _ (m.host s t₁ h₁)
    rw [if_neg hx] at hf ⊢
    rw [if_neg hx]
    rcases hencodable : x.unencodable? with _ | p <;> simp only [hencodable] at hf ⊢
    case some => exact .error _ (m.host s t₁ h₁)
    have hkey : ((r.provision h.noting).aclKey (secretDigest x)).normal.unfit? = none :=
      CacheKey.unfit?_ofAcl _ _
    have hlookup := Engine.fst_cacheGet (hs.plain _ hlists) hkey
    rcases hget : Engine.cacheGet r.aclCache ((r.provision h.noting).aclKey (secretDigest x)) s
      with ⟨e | _ | kept, s₂⟩
    · rw [hget] at hlookup
      cases hlookup
    · obtain ⟨t₂, hglance, h₂⟩ := m.glanceList x s t₁ s₂ none h₁ hget
      rw [Action.bind_of_ok hget] at hf ⊢
      rw [Action.bind_of_ok hglance]
      dsimp only at hf ⊢
      have hs₂ : s₂.IsFounded cast := by
        have hstep : Step cast s (Engine.cacheGet r.aclCache
          ((r.provision h.noting).aclKey (secretDigest x)) s).2 := .looked _ _ _
        rw [hget] at hstep
        exact hstep.isFounded hs
      refine .bind (m.fetchToken x h₂) m.host ?_
      rintro names _ s₃ t₃ hfetch rfl h₃
      rw [Action.bind_of_ok hfetch, Action.host_bind_left fun _ => Action.host_bind
        (fun _ => rfl) fun _ _ => rfl] at hf
      have htoken := ((meets_fetchToken hh x _).of_eq (Nat.le_refl _) hfetch).1
      have hs₃ : s₃.IsFounded cast := isFounded_of_steps htoken hs₂
      refine .bind (resolveNames_eq_anew m hh hcast hr hpolicies hs₃ h₃ (live_of_fetchToken hfetch)
        names hf) (fun _ _ h => h) ?_
      rintro acl _ s₄ t₄ hresolve rfl h₄
      have hsteps := ((meets_resolveNames hh hr names).of_eq trivial hresolve).1
      have hput := Engine.fst_cachePut ((isFounded_of_steps hsteps hs₃).plain _ hlists) hkey
        (.acl acl) r.aclTtl
      exact (Action.bind_of_ok (Prod.ext hput rfl)).symm ▸ .ok rfl h₄
    · exact absurd (congrArg Prod.fst hget) (hmiss x kept rfl)
  all_goals exact .error _ (m.host s t₁ h₁)

end Following

/-- Fetching a policy asks the host for it, or does nothing to the host. -/
theorem host_fetchPolicy (w : Provision η) (name : Value) (s : Engine η) :
    (fetchPolicy w ctx name s).2.host = s.host ∨
      (fetchPolicy w ctx name s).2.host = (w.policy ctx name s).2.host := by
  have hfetch : (fetchPolicy w ctx name s).2.host =
      (consult w.policy (.policyResolution name) ctx name s).2.host := by
    refine Action.host_bind_left (fun a s => ?_) s
    cases a.policy? <;> rfl
  rw [hfetch]
  rcases Action.bind_cases (rfl : consult w.policy (.policyResolution name) ctx name s = _) with
    ⟨e, t, hcheck, ho⟩ | ⟨⟨⟩, t, hcheck, ho⟩ <;>
    obtain rfl : s = t := Engine.eq_of_checkContext hcheck
  · exact .inl (by rw [ho])
  · have hcheck : ∀ (a : Answer) (s : Engine η), ((do
        Engine.checkContext ctx
        return a : Action η Answer) s).2.host = s.host := fun a =>
      Action.host_bind (fun s => congrArg Engine.host (Engine.snd_checkContext ctx s)) fun _ _ => rfl
    refine .inr ((congrArg (·.2.host) ho.symm).trans ((Action.host_bind_left hcheck s).trans ?_))
    rcases w.policy ctx name s with ⟨p | a, t⟩ <;> rfl

/-- A librarian who keeps everything forever. -/
def librarian : Resolver := ⟨AnyAcl.booksModel, 0, 1, none, none⟩

/-- A library in which every secret is bound to the policy of readers. -/
def library : Host (Chronicle Unit) where
  token _ _ s := (.ok (.token ⟨["readers"], none, ""⟩), s)
  policy _ _ s := (.ok (.policy AnyAcl.readers), s)

/-- The librarian and both caches. -/
def desk : Cast := ⟨{librarian}, {0, 1}⟩

/-- The model of the librarian is validated. -/
theorem isValidated_desk : desk.IsValidated := by
  refine ⟨?_, ?_⟩
  · rintro _ rfl
    exact (ValidModel.isValidated_of_validate AnyAcl.validate_books).1
  · rintro _ rfl _ rfl -
    exact .refl _

/-- In the morning, the caches are empty. -/
def morning : Engine (Chronicle Unit) :=
  ((Engine.start ⟨(), 0, []⟩).setCache 0 (.memory (.create none 10))).setCache 1
    (.memory (.create none 10))

/-- At noon, the policy of readers was compiled once. -/
def noon : Engine (Chronicle Unit) :=
  (Call.policies (.list [.text "readers"]) none).exec library librarian morning

/-- In the library, policies are only ever answered with the policy of readers. -/
theorem events_library {s : Engine (Chronicle Unit)} (c : Option ContextId)
    (hs : ∀ name o, .answered name o ∈ s.host.events → o = .ofPolicy AnyAcl.readers) :
    ∀ name o, .answered name o ∈ (resolvePolicies (librarian.provision library.noting) librarian
      (.list [.text "readers"]) c s).2.host.events → o = .ofPolicy AnyAcl.readers := by
  have hnames : Token.distinctNames (.list [.text "readers"]) = .ok [.text "readers"] := rfl
  simp only [resolvePolicies, withContext_eq]
  rcases Action.bind_cases (rfl : (Engine.checkContext (s.opened c).1 >>= fun _ =>
      resolveNames (librarian.provision library.noting) librarian (s.opened c).1
        (.list [.text "readers"])) (s.opened c).2 = _) with
    ⟨e, t, hcheck, ho⟩ | ⟨⟨⟩, t, hcheck, ho⟩ <;>
    obtain rfl : (s.opened c).2 = t := Engine.eq_of_checkContext hcheck
  · rw [ho, Engine.host_opened]
    exact hs
  · have hfetch : (fetchEach (librarian.provision library.noting) librarian (s.opened c).1
        [.text "readers"] (s.opened c).2).2.host = (fetchPolicy (librarian.provision library.noting)
          (s.opened c).1 (.text "readers") (s.opened c).2).2.host := by
      rw [fetchEach, Action.host_bind_left fun _ _ => rfl,
        host_fetchCompiled _ _ fun o s => congrArg Engine.host (Action.snd_ofProblem _ s)]
    rw [← ho, host_resolveNames librarian library.noting hnames, hfetch]
    rcases host_fetchPolicy (librarian.provision library.noting) (.text "readers")
      (s.opened c).2 with hpolicy | hpolicy <;> rw [hpolicy]
    · rw [Engine.host_opened]
      exact hs
    · rintro name o (_ | ⟨_, hmem⟩)
      · rfl
      · exact hs name o (Engine.host_opened c s ▸ hmem)

/-- An object of a host's own kind that passes for a policy. -/
def slip (name : Value) (rules : List Value) (version : Value) : PlainObject :=
  ⟨.object [("name", name), ("rules", .list rules), ("version", version)], true⟩

/-- A rule on such a slip, for every instance. -/
def slipRule (resource : Value) (capabilities : List Value) : Value :=
  .object [("resource", resource), ("instance", "*"), ("capabilities", .list capabilities)]

/-- A host that answers with whatever lies in the drawer. -/
def drawer : Host (Chronicle PlainObject) where
  token _ _ s := (.ok (.token ⟨["readers"], none, ""⟩), s)
  policy _ _ s := (.ok (.object s.host.host), s)

/-- The drawer does nothing to the caches. -/
theorem keepsTo_drawer : drawer.KeepsTo desk :=
  ⟨fun _ _ s => .done s, fun _ _ s => .done s⟩

/-- What lies in the drawer does not depend on the caches. -/
theorem ignoresCaches_drawer : drawer.IgnoresCaches desk :=
  ⟨fun _ _ _ _ h => .ok rfl h, fun _ _ s t h => .ok (by rw [h.host]) h⟩

/-- The caches are empty, and an object lies in the drawer. -/
def laid (o : PlainObject) : Engine (Chronicle PlainObject) :=
  ((Engine.start ⟨o, 0, []⟩).setCache 0 (.memory (.create none 10))).setCache 1
    (.memory (.create none 10))

/-- The caches are empty when the first object is laid in the drawer. -/
theorem isFresh_laid (o : PlainObject) : (laid o).IsFresh desk :=
  ⟨by rintro _ (rfl | rfl) <;> exact trivial, by rintro _ (rfl | rfl) k <;> rfl⟩

/-- The policy in the drawer has a list for its version. -/
def listed : Engine (Chronicle PlainObject) := laid (slip "readers" [] (.list [.int 1]))

/-- The policy in the drawer has a rule for a resource that there is not, and then a rule with a
number among the capabilities. -/
def mixed : Engine (Chronicle PlainObject) :=
  laid (slip "readers" [slipRule "shelf" [], slipRule "book" [.int 1, "read"]] .null)

/-- Another object is laid in the drawer. -/
def exchange (o : PlainObject) (s : Engine (Chronicle PlainObject)) :
    Engine (Chronicle PlainObject) :=
  { s with host := { s.host with host := o } }

/-- Laying another object in the drawer does not write the caches. -/
theorem unwritten_exchange (o : PlainObject) (s : Engine (Chronicle PlainObject)) :
    s.Unwritten desk (exchange o s) :=
  ⟨fun _ _ => .refl _, rfl, rfl⟩

/-- The names that the librarian is asked for. -/
def askedFor : Value := .list [.text "readers"]

/-- A policy without rules and version was resolved, and then another one was laid in the drawer. -/
def exchanged (name name' : Text) : Engine (Chronicle PlainObject) :=
  exchange (slip (.text name') [] .null)
    ((Call.policies askedFor none).exec drawer librarian (laid (slip (.text name) [] .null)))

/-- The compiled form of the first policy is kept under the digest of that. -/
theorem exists_find?_exchanged (name name' : Text) :
    ∃ e, ((exchanged name name').cache 0).find?
        ((librarian.provision drawer.noting).policyKey (.text "readers")
          (.text (Policy.mk name [] .null).digest)).normal = some e ∧
      e.value.value = .policy (.strict ⟨name, librarian.model.fingerprint, ∅⟩) ∧
      e.expiresAt = none := by
  let s := laid (slip (.text name) [] .null)
  let w := librarian.provision drawer.noting
  let version : Value := .text (Policy.mk name [] .null).digest
  obtain ⟨t, hfetch, hget, m, hmemory, hexpiry⟩ : ∃ t,
      fetchPolicy w (s.opened none).1 (.text "readers") (s.opened none).2 =
        (.ok ⟨.text name, .null, .ok []⟩, t) ∧
      (Engine.cacheGet 0 (w.policyKey (.text "readers") version) t).1 = .ok none ∧
      ∃ m, (Engine.cacheGet 0 (w.policyKey (.text "readers") version) t).2.cache 0 = .memory m ∧
        ∀ now, m.expiry now none = none :=
    ⟨_, rfl, rfl, _, rfl, fun _ => rfl⟩
  have hnames : Token.distinctNames askedFor = .ok [.text "readers"] := rfl
  obtain ⟨-, e, hfind, hc, he⟩ := resolvePolicies_of_miss (h := drawer.noting) (r := librarian)
    hnames rfl hfetch rfl rfl (Prod.ext hget rfl) hmemory rfl rfl
  exact ⟨e, hfind, hc, he.trans (hexpiry _)⟩

/-- **If the second policy has the digest of the first,** the librarian answers with the first. -/
theorem resolvePolicies_of_digest_eq {name name' : Text}
    (hdigest : (Policy.mk name [] .null).digest = (Policy.mk name' [] .null).digest) :
    (resolvePolicies (librarian.provision drawer.noting) librarian askedFor none
        (exchanged name name')).1 =
          .ok (.strict ⟨∅, [name], some librarian.model.fingerprint⟩) ∧
      (resolvePolicies (librarian.provision drawer.noting) librarian askedFor none
        (exchanged name name')).2.host.events =
          [.answered (.text "readers") ⟨.text name', .null, .ok []⟩,
            .answered (.text "readers") ⟨.text name, .null, .ok []⟩] := by
  let s := exchanged name name'
  obtain ⟨e, hfind, hc, hexpiry⟩ := exists_find?_exchanged name name'
  rw [hdigest] at hfind
  obtain ⟨t, hfetch, hplain, hcache, hevents⟩ : ∃ t,
      fetchPolicy (librarian.provision drawer.noting) (s.opened none).1 (.text "readers")
        (s.opened none).2 = (.ok ⟨.text name', .null, .ok []⟩, t) ∧
      (t.cache 0).IsPlain ∧ t.cache 0 = s.cache 0 ∧ t.host.events =
        [.answered (.text "readers") ⟨.text name', .null, .ok []⟩,
          .answered (.text "readers") ⟨.text name, .null, .ok []⟩] :=
    ⟨_, rfl, trivial, rfl, rfl⟩
  have hnames : Token.distinctNames askedFor = .ok [.text "readers"] := rfl
  obtain ⟨hfound, hhost⟩ := resolvePolicies_of_find? (h := drawer.noting) (r := librarian) hnames
    rfl hfetch rfl rfl hplain (hcache ▸ hfind) (by rw [CacheEntry.isExpired, hexpiry]) hc
  exact ⟨hfound, by rw [hhost, hevents]⟩

end Resolver

end Gatehouse
