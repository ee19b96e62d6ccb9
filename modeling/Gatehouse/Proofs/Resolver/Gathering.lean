import Gatehouse.Proofs.Resolver.Rules

/-!
# Resolutions gather first and store then

Whatever a resolver is asked for (`Request`), it first looks things up and asks the host, which
writes nothing (`Request.gather`), and then stores what came of it (`Engine.storeEach`).  Main
statement: every resolution is made of these two halves (`Request.resolve_eq`).
-/

namespace Gatehouse

/-- What a resolver is asked for. -/
inductive Request where
  /-- The list of a secret. -/
  | secret (secret : Value)
  /-- The list of several policies. -/
  | policies (names : Value)
  /-- The compiled form of a policy. -/
  | policy (name : Value)

/-- A write of a resolution. -/
structure Write where
  /-- The cache. -/
  cache : CacheId
  /-- The key. -/
  key : CacheKey
  /-- The value. -/
  value : Kept
  /-- How long it lives. -/
  ttl : Option Float

variable {η α β : Type}

/-- Writes in order, up to the first that is refused. -/
def Engine.storeEach : List Write → Action η Unit
  | [] => .done ()
  | st :: rest => do
    cachePut st.cache st.key (some st.value) st.ttl
    storeEach rest

namespace Resolver

/-- The writes of what was compiled just now. -/
def Fetched.stores (r : Resolver) : List Fetched → List Write
  | [] => []
  | .cached _ :: rest => stores r rest
  | .fresh key c :: rest => ⟨r.policyCache, key, .policy c, r.policyTtl⟩ :: stores r rest

/-- What comes of policy names, and what is to be stored of it. -/
def gatherNames (w : Provision η) (r : Resolver) (ctx : ContextId) (names : Value) :
    Action η (List Write × AnyAcl) := do
  let distinct ← .ofProblem (Token.distinctNames names)
  let fetched ← fetchEach w r ctx distinct
  Engine.checkContext ctx
  let acl ← .ofProblem (Fetched.merge fetched)
  return (Fetched.stores r fetched, acl)

/-- The write of the list of a secret. -/
def aclStore (w : Provision η) (r : Resolver) (secret : Text) (a : AnyAcl) : Write :=
  ⟨r.aclCache, w.aclKey (secretDigest secret), .acl a, r.aclTtl⟩

/-- What comes of a secret that is not empty, and what is to be stored of it. -/
def gatherSecret (w : Provision η) (r : Resolver) (ctx : ContextId) (secret : Text) :
    Action η (List Write × Kept) := do
  match ← Engine.cacheGet r.aclCache (w.aclKey (secretDigest secret)) with
  | some kept => return ([], kept)
  | none => do
    let names ← fetchToken w ctx secret
    let g ← gatherNames w r ctx names
    return (g.1 ++ [aclStore w r secret g.2], .acl g.2)

end Resolver

namespace Request

open Resolver

/-- What a resolver answers to a request. -/
def resolve (w : Provision η) (r : Resolver) (ctx : Option ContextId) : Request → Action η Kept
  | secret v => resolveSecret w r v ctx
  | policies names => Kept.acl <$> resolvePolicies w r names ctx
  | policy name => resolvePolicy w r name ctx

/-- **The first half of a resolution:** its answer, and what is to be stored. -/
def gather (w : Provision η) (r : Resolver) (ctx : ContextId) :
    Request → Action η (List Write × Kept)
  | secret v => do
    Engine.checkContext ctx
    match v with
    | .text s =>
      if s = "" then .fault (.secretResolution "secret must be a non-empty string")
      else
        match s.unencodable? with
        | some p => .problem p
        | none => gatherSecret w r ctx s
    | _ => .fault (.secretResolution "secret must be a non-empty string")
  | policies names => do
    Engine.checkContext ctx
    let g ← gatherNames w r ctx names
    return (g.1, .acl g.2)
  | policy name => do
    Engine.checkContext ctx
    let f ← fetchCompiled w r ctx name
    Engine.checkContext ctx
    return (Fetched.stores r [f], f.kept)

end Request

/-! ### What all parts share -/

/-- **A relation between resolutions that all of their parts respect.**  The two may run in hosts with
different states.  A property of resolutions is a relation that looks at the first one only. -/
structure Request.Congruence {θ : Type} (C : ∀ {α : Type}, Action θ α → Action η α → Prop)
    (w : Provision θ) (w' : Provision η) (ctx : ContextId) : Prop where
  /-- Doing nothing. -/
  done : ∀ {α : Type} (a : α), C (.done a) (.done a)
  /-- Failing. -/
  fail : ∀ {α : Type} (e : Failure), C (.fail e : Action θ α) (.fail e)
  /-- One thing after the other. -/
  bind : ∀ {α β : Type} {x : Action θ α} {y : Action η α} {f : α → Action θ β} {g : α → Action η β},
    C x y → (∀ a, C (f a) (g a)) → C (x >>= f) (y >>= g)
  /-- Checking the context. -/
  checkContext : C (Engine.checkContext ctx) (Engine.checkContext ctx)
  /-- Looking a key up. -/
  cacheGet : ∀ id key, C (Engine.cacheGet id key) (Engine.cacheGet id key)
  /-- Consulting the collaborator for secrets. -/
  token : ∀ fault secret, C (Resolver.consult w.token fault ctx secret)
    (Resolver.consult w'.token fault ctx secret)
  /-- Consulting the collaborator for policies. -/
  policy : ∀ fault name, C (Resolver.consult w.policy fault ctx name)
    (Resolver.consult w'.policy fault ctx name)
  /-- Compiling. -/
  compile : ∀ o, C (w.compile o) (w'.compile o)
  /-- The model is the same. -/
  fingerprint : w.fingerprint = w'.fingerprint

namespace Request.Congruence

open Resolver

variable {θ : Type} {C : ∀ {α : Type}, Action θ α → Action η α → Prop} {w : Provision θ}
  {w' : Provision η} {r : Resolver} {ctx : ContextId} (c : Congruence C w w' ctx)
include c

/-- Passing on a result is congruent. -/
theorem ofProblem (v : Except Problem α) : C (.ofProblem v : Action θ α) (.ofProblem v) := by
  cases v with
  | error p => exact c.fail _
  | ok a => exact c.done a

/-- Fetching a token is congruent. -/
theorem fetchToken (secret : Text) :
    C (Resolver.fetchToken w ctx secret) (Resolver.fetchToken w' ctx secret) := by
  refine c.bind (c.token _ _) fun a => ?_
  cases a.policies? with
  | none => exact c.fail _
  | some names => exact c.done names

/-- Fetching a policy is congruent. -/
theorem fetchPolicy (name : Value) :
    C (Resolver.fetchPolicy w ctx name) (Resolver.fetchPolicy w' ctx name) := by
  refine c.bind (c.policy _ _) fun a => ?_
  cases a.policy? with
  | none => exact c.fail _
  | some o => exact c.done o

/-- Fetching the compiled form of a policy is congruent. -/
theorem fetchCompiled (name : Value) :
    C (Resolver.fetchCompiled w r ctx name) (Resolver.fetchCompiled w' r ctx name) := by
  simp only [Resolver.fetchCompiled, Provision.policyKey, c.fingerprint]
  refine c.bind (c.fetchPolicy name) fun o => c.bind (c.ofProblem _) fun version =>
    c.bind (c.cacheGet _ _) fun found => ?_
  cases found with
  | some kept => exact c.done _
  | none => exact c.bind c.checkContext fun _ => c.bind (c.compile o) fun _ => c.done _

/-- Fetching compiled policies one after the other is congruent. -/
theorem fetchEach (names : List Value) :
    C (Resolver.fetchEach w r ctx names) (Resolver.fetchEach w' r ctx names) := by
  induction names with
  | nil => exact c.done []
  | cons name rest ih => exact c.bind (c.fetchCompiled name) fun _ => c.bind ih fun _ => c.done _

/-- Gathering for names is congruent. -/
theorem gatherNames (names : Value) :
    C (Resolver.gatherNames w r ctx names) (Resolver.gatherNames w' r ctx names) :=
  c.bind (c.ofProblem _) fun distinct => c.bind (c.fetchEach distinct) fun _ =>
    c.bind c.checkContext fun _ => c.bind (c.ofProblem _) fun _ => c.done _

/-- Gathering for a secret is congruent. -/
theorem gatherSecret (secret : Text) :
    C (Resolver.gatherSecret w r ctx secret) (Resolver.gatherSecret w' r ctx secret) := by
  simp only [Resolver.gatherSecret, aclStore, Provision.aclKey, c.fingerprint]
  refine c.bind (c.cacheGet _ _) fun found => ?_
  cases found with
  | some kept => exact c.done _
  | none =>
    exact c.bind (c.fetchToken secret) fun names => c.bind (c.gatherNames names) fun _ => c.done _

/-- **What all parts respect, gathering respects.** -/
theorem gather (q : Request) : C (q.gather w r ctx) (q.gather w' r ctx) := by
  cases q with
  | secret v =>
    refine c.bind c.checkContext fun _ => ?_
    rcases v with _ | _ | _ | _ | x | _ | _
    case text =>
      dsimp only
      split
      · exact c.fail _
      · split
        · exact c.fail _
        · exact c.gatherSecret x
    all_goals exact c.fail _
  | policies names =>
    exact c.bind c.checkContext fun _ => c.bind (c.gatherNames names) fun _ => c.done _
  | policy name =>
    exact c.bind c.checkContext fun _ => c.bind (c.fetchCompiled name) fun _ =>
      c.bind c.checkContext fun _ => c.done _

end Request.Congruence

/-! ### Rules for gathering -/

namespace Action.Meets

open Relation (ReflTransGen)
open Resolver

variable {R : Engine η → Engine η → Prop} {P : Engine η → Prop} {w : Provision η} {r : Resolver}
  {ctx : ContextId}

/-- What is gathered for policy names is what was fetched for them. -/
theorem gatherNames {names : Value} {F : List Value → List Fetched → Engine η → Prop}
    (hfetch : ∀ distinct, Token.distinctNames names = .ok distinct →
      (Resolver.fetchEach w r ctx distinct).Meets R P (F distinct)) :
    (Resolver.gatherNames w r ctx names).Meets R P fun g s => ∃ distinct l,
      Token.distinctNames names = .ok distinct ∧ F distinct l s ∧ Fetched.merge l = .ok g.2 ∧
        g.1 = Fetched.stores r l := by
  refine .bind (Q := fun distinct s => P s ∧ Token.distinctNames names = .ok distinct)
    (.ofProblem fun _ _ hs h => ⟨hs, h⟩) fun distinct => ?_
  by_cases hdistinct : Token.distinctNames names = .ok distinct
  · refine .bind ((hfetch distinct hdistinct).mono (fun _ hs => hs.1) fun _ _ h => h) fun l =>
      .bind checkContext fun _ => .bind (Q := fun acl s => F distinct l s ∧
        Fetched.merge l = .ok acl) (.ofProblem fun _ _ hs h => ⟨hs, h⟩) fun acl => ?_
    exact .done fun s hs => ⟨distinct, l, hdistinct, hs.1, hs.2, rfl⟩
  · exact fun s hs => absurd hs.2 hdistinct

/-- What is gathered for a secret is what the cache keeps for it, or what is gathered for the names
of its token, with one more write. -/
theorem gatherSecret {secret : Text} {L : Option Kept → Engine η → Prop}
    {T : Value → Engine η → Prop} {N : List Write × AnyAcl → Engine η → Prop}
    (hlook : (Engine.cacheGet r.aclCache (w.aclKey (secretDigest secret))).Meets R P L)
    (htoken : (Resolver.fetchToken w ctx secret).Meets R (L none) T)
    (hnames : ∀ names, (Resolver.gatherNames w r ctx names).Meets R (T names) N) :
    (Resolver.gatherSecret w r ctx secret).Meets R P fun g s =>
      (∃ kept, g = ([], kept) ∧ L (some kept) s) ∨
        ∃ g', g = (g'.1 ++ [aclStore w r secret g'.2], .acl g'.2) ∧ N g' s := by
  refine .bind hlook fun found => ?_
  cases found with
  | some kept => exact .done fun s hs => .inl ⟨kept, rfl, hs⟩
  | none =>
    exact .bind htoken fun names => .bind (hnames names) fun g =>
      .done fun s hs => .inr ⟨g, rfl, hs⟩

/-- Gathering goes by steps of a sort if lookups, collaborators and compiling do. -/
theorem gather (hlooked : ∀ id key s, ReflTransGen R s (Engine.cacheGet id key s).2)
    (htoken : ∀ secret s, ReflTransGen R s (w.token ctx secret s).2)
    (hpolicy : ∀ name s, ReflTransGen R s (w.policy ctx name s).2)
    (hcompile : ∀ o s, ReflTransGen R s (w.compile o s).2) (q : Request) :
    (q.gather w r ctx).Meets R (fun _ => True) fun _ _ => True := by
  let C : ∀ {α : Type}, Action η α → Action η α → Prop :=
    fun x _ => x.Meets R (fun _ => True) fun _ _ => True
  have c : Request.Congruence C w w ctx :=
    { done := fun _ => .done fun _ _ => trivial
      fail := fun _ => .fail
      bind := fun hx hf => .bind hx hf
      checkContext := .checkContext
      cacheGet := fun id key s _ => ⟨hlooked id key s, fun _ _ => trivial⟩
      token := fun _ secret => .consult fun s _ => ⟨htoken secret s, fun _ _ => trivial⟩
      policy := fun _ name => .consult fun s _ => ⟨hpolicy name s, fun _ _ => trivial⟩
      compile := fun o s _ => ⟨hcompile o s, fun _ _ => trivial⟩
      fingerprint := rfl }
  exact c.gather q

end Action.Meets

/-! ### The two halves -/

/-- A gathering with the writes that it asks for. -/
def Action.thenStore (x : Action η (List Write × α)) : Action η α := do
  let g ← x
  Engine.storeEach g.1
  return g.2

/-- What is to be stored for several policies is to be stored for each. -/
theorem Resolver.Fetched.stores_cons (r : Resolver) (f : Fetched) (l : List Fetched) :
    stores r (f :: l) = stores r [f] ++ stores r l := by
  cases f <;> rfl

/-- What was compiled just now is stored. -/
theorem Resolver.Fetched.mem_stores_iff {r : Resolver} {l : List Fetched} {st : Write} :
    st ∈ stores r l ↔
      ∃ key c, .fresh key c ∈ l ∧ st = ⟨r.policyCache, key, .policy c, r.policyTtl⟩ := by
  induction l with
  | nil => simp [stores]
  | cons f rest ih => cases f <;> simp [stores, ih, or_and_right, exists_or]

/-- Writes in two rows are made one row after the other. -/
theorem Engine.storeEach_append (l l' : List Write) :
    storeEach (η := η) (l ++ l') = storeEach l >>= fun _ => storeEach l' := by
  induction l with
  | nil => rfl
  | cons st rest ih => simp only [List.cons_append, storeEach, ih, bind_assoc]

/-- A single write in a row is that write. -/
theorem Engine.storeEach_single (st : Write) :
    storeEach (η := η) [st] = cachePut st.cache st.key (some st.value) st.ttl :=
  Action.andThen_done _

/-- Writes do nothing to the host. -/
theorem Engine.host_storeEach (l : List Write) (s : Engine η) :
    (storeEach l s).2.host = s.host := by
  induction l generalizing s with
  | nil => rfl
  | cons st rest ih => exact Action.host_bind (fun _ => rfl) (fun _ => ih) s

/-- An entry of a cache comes from a write. -/
structure Write.Left (st : Write) (id : CacheId) (k : CacheKey) (e : CacheEntry Deposit) : Prop where
  /-- The cache. -/
  cache : st.cache = id
  /-- The key. -/
  key : k = st.key.normal
  /-- The value. -/
  value : e.value.value = st.value

/-- **A plain cache after some writes** is plain, and every entry comes from one of them or was
there. -/
theorem Engine.storeEach_left {s : Engine η} {id : CacheId} (hplain : (s.cache id).IsPlain)
    (l : List Write) : ((storeEach l s).2.cache id).IsPlain ∧
      ∀ k e, ((storeEach l s).2.cache id).find? k = some e →
        (∃ st ∈ l, st.Left id k e) ∨ (s.cache id).find? k = some e := by
  induction l generalizing s with
  | nil => exact ⟨hplain, fun _ _ hfind => .inr hfind⟩
  | cons st rest ih =>
    let t := (cachePut st.cache st.key (some st.value) st.ttl s).2
    obtain ⟨hput, hleft⟩ : (t.cache id).IsPlain ∧ ∀ k e, (t.cache id).find? k = some e →
        (∃ st' ∈ st :: rest, st'.Left id k e) ∨ (s.cache id).find? k = some e := by
      by_cases hid : id = st.cache
      · subst hid
        have hcache : t.cache st.cache = _ := cache_setCache_self s st.cache _
        rw [hcache]
        refine ⟨Cache.isPlain_put hplain _ _ _ _, fun k e he => ?_⟩
        rcases Cache.find?_put hplain he with ⟨hk, -, hvalue, -⟩ | ⟨hold, -⟩
        · exact .inl ⟨st, List.mem_cons_self, rfl, hk, by rw [hvalue]; rfl⟩
        · exact .inr hold
      · have hcache : t.cache id = s.cache id := cache_setCache_of_ne s _ hid
        rw [hcache]
        exact ⟨hplain, fun _ _ he => .inr he⟩
    rcases Action.bind_cases (rfl : storeEach (st :: rest) s = _) with
      ⟨p, u, hfirst, ho⟩ | ⟨⟨⟩, u, hfirst, ho⟩ <;> obtain rfl : t = u := congrArg Prod.snd hfirst
    · rw [ho]
      exact ⟨hput, hleft⟩
    · rw [← ho]
      obtain ⟨hplain', hleft'⟩ := ih hput
      refine ⟨hplain', fun k e hfind => ?_⟩
      rcases hleft' k e hfind with ⟨st', hmem, h⟩ | hfind
      · exact .inl ⟨st', List.mem_cons_of_mem _ hmem, h⟩
      · exact hleft k e hfind

/-- An entry that comes from the last of some writes is there only if all of them have succeeded. -/
theorem Engine.storeEach_concat_left {s : Engine η} {id : CacheId} {l : List Write} {st : Write}
    (hplain : (s.cache id).IsPlain) (hkey : st.key.normal.unfit? = none) {k : CacheKey}
    {e : CacheEntry Deposit} (hfind : ((storeEach (l ++ [st]) s).2.cache id).find? k = some e) :
    ((∃ st' ∈ l, st'.Left id k e) ∨ (s.cache id).find? k = some e) ∨
      (storeEach (l ++ [st]) s).1 = .ok () ∧ st.Left id k e := by
  obtain ⟨hplain', hleft⟩ := storeEach_left hplain l
  rw [storeEach_append, storeEach_single] at hfind ⊢
  rcases Action.bind_cases (rfl : (storeEach l >>= fun _ =>
    cachePut st.cache st.key (some st.value) st.ttl) s = _) with
    ⟨p, u, hfirst, ho⟩ | ⟨⟨⟩, u, hfirst, ho⟩ <;> rw [hfirst] at hplain' hleft
  · rw [ho] at hfind
    exact .inl (hleft k e hfind)
  · rw [← ho, ← storeEach_single] at hfind
    rcases (storeEach_left hplain' [st]).2 k e hfind with ⟨st', hst', hmine⟩ | hfind
    · obtain rfl := List.mem_singleton.1 hst'
      refine .inr ⟨?_, hmine⟩
      rw [← ho]
      exact fst_cachePut (hmine.cache ▸ hplain') hkey _ _
    · exact .inl (hleft k e hfind)

/-- Storing leaves the host alone. -/
theorem Action.host_thenStore (x : Action η (List Write × α)) (s : Engine η) :
    (x.thenStore s).2.host = (x s).2.host :=
  host_bind_left (fun (g : List Write × α) => host_bind (Engine.host_storeEach g.1) fun _ _ => rfl) s

namespace Resolver

variable (w : Provision η) (r : Resolver) (ctx : ContextId)

/-- Keeping what was compiled is storing it. -/
theorem keepEach_eq (l : List Fetched) :
    keepEach (η := η) r l = Engine.storeEach (Fetched.stores r l) := by
  induction l with
  | nil => rfl
  | cons f rest ih =>
    cases f with
    | cached => exact ih
    | fresh key c => simp only [keepEach, Fetched.stores, Engine.storeEach, ih]

/-- Resolving names is gathering for them and storing then. -/
theorem resolveNames_eq (names : Value) :
    resolveNames w r ctx names = (gatherNames w r ctx names).thenStore := by
  simp only [resolveNames, gatherNames, Action.thenStore, keepEach_eq, bind_assoc, pure_bind]

/-- Resolving a secret is gathering for it and storing then. -/
theorem resolveSecretUnder_eq (v : Value) :
    resolveSecretUnder w r ctx v = ((Request.secret v).gather w r ctx).thenStore := by
  simp only [resolveSecretUnder, Request.gather, Action.thenStore, bind_assoc]
  congr 1
  funext ⟨⟩
  rcases v with _ | _ | _ | _ | x | _ | _
  case text =>
    dsimp only
    split
    · rfl
    rcases x.unencodable? with _ | p
    · simp only [gatherSecret, bind_assoc]
      congr 1
      funext found
      cases found with
      | some kept => rfl
      | none =>
        simp only [resolveNames_eq, Action.thenStore, bind_assoc, pure_bind,
          Engine.storeEach_append, Engine.storeEach_single, aclStore]
    · rfl
  all_goals rfl

/-- A change of the answer may as well be made before the context is closed. -/
theorem map_withContext (f : α → β) (ctx : Option ContextId) (body : ContextId → Action η α) :
    f <$> withContext ctx body = withContext ctx fun id => f <$> body id := by
  funext s
  rw [Action.map_apply, withContext_eq, withContext_eq, Action.map_apply]

end Resolver

/-- **A resolution gathers first and stores then,** in the engine that opens with its context. -/
theorem Request.resolve_eq (w : Provision η) (r : Resolver) (ctx : Option ContextId) (q : Request)
    (s : Engine η) : q.resolve w r ctx s =
      (((q.gather w r (s.opened ctx).1).thenStore (s.opened ctx).2).1,
        { ((q.gather w r (s.opened ctx).1).thenStore (s.opened ctx).2).2 with
          running := s.running }) := by
  cases q with
  | secret v =>
    rw [resolve, Resolver.resolveSecret, Resolver.withContext_eq, Resolver.resolveSecretUnder_eq]
  | policies names =>
    have h : ((Request.policies names).gather w r (s.opened ctx).1).thenStore =
        Kept.acl <$> (do
          Engine.checkContext (s.opened ctx).1
          Resolver.resolveNames w r (s.opened ctx).1 names) := by
      simp only [gather, Action.thenStore, Resolver.resolveNames_eq, bind_assoc, pure_bind,
        map_eq_pure_bind]
    rw [resolve, Resolver.resolvePolicies, Resolver.map_withContext, Resolver.withContext_eq, h]
  | policy name =>
    have h : ((Request.policy name).gather w r (s.opened ctx).1).thenStore = (do
        Engine.checkContext (s.opened ctx).1
        let f ← Resolver.fetchCompiled w r (s.opened ctx).1 name
        Engine.checkContext (s.opened ctx).1
        Resolver.keepEach r [f]
        return f.kept) := by
      simp only [gather, Action.thenStore, Resolver.keepEach_eq, bind_assoc, pure_bind]
    rw [resolve, Resolver.resolvePolicy, Resolver.withContext_eq, h]

/-- A resolution that has gathered its answer gives it once everything is stored. -/
theorem Request.resolve_of_gather {w : Provision η} {r : Resolver} {ctx : Option ContextId}
    {q : Request} {s u : Engine η} {g : List Write × Kept}
    (h : q.gather w r (s.opened ctx).1 (s.opened ctx).2 = (.ok g, u)) : q.resolve w r ctx s =
      ((Engine.storeEach g.1 u).1.map fun _ => g.2,
        { (Engine.storeEach g.1 u).2 with running := s.running }) := by
  have hstore : (q.gather w r (s.opened ctx).1).thenStore (s.opened ctx).2 =
      ((Engine.storeEach g.1 u).1.map fun _ => g.2, (Engine.storeEach g.1 u).2) :=
    (Action.bind_of_ok h).trans (Action.map_apply (fun _ => g.2) (Engine.storeEach g.1) u)
  rw [resolve_eq, hstore]

/-- A resolution that cannot gather its answer stores nothing. -/
theorem Request.resolve_of_gather_error {w : Provision η} {r : Resolver} {ctx : Option ContextId}
    {q : Request} {s u : Engine η} {e : Failure}
    (h : q.gather w r (s.opened ctx).1 (s.opened ctx).2 = (.error e, u)) :
    q.resolve w r ctx s = (.error e, { u with running := s.running }) := by
  rw [resolve_eq, Action.thenStore, Action.bind_of_error h]

end Gatehouse
