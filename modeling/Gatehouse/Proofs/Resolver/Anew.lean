import Gatehouse.Proofs.Engine.Matching
import Gatehouse.Proofs.Resolver.Steps

/-!
# Resolving without caches

What resolutions are meant to give is said by programs that take nothing from a cache and store
nothing: for each name in order the policy is fetched and compiled, and the compiled policies are
merged (`Resolver.resolvePoliciesAnew`, `Resolver.resolveSecretAnew`).  Where a cache would be looked
up, such a program may leave the caches alone (`Glances.none`) or look them up and throw away what it
finds (`Glances.counted`).  Main statements: the two are followed by the same collaborators in the
same way, the first if these cannot tell what is in the caches (`Mirrors.counted`, `Mirrors.none`).
-/

namespace Gatehouse

variable {η : Type}

/-- What a resolution without caches does where one with caches looks something up.  Nothing that
follows depends on it. -/
structure Glances (η : Type) where
  /-- In place of the lookup of a list. -/
  list : (secret : Text) → Action η Unit
  /-- In place of the lookup of a compiled policy. -/
  policy : (name : Value) → (o : OfferedPolicy) → Action η Unit

namespace Glances

/-- Nothing at all. -/
protected def none : Glances η where
  list _ := .done ()
  policy _ _ := .done ()

/-- The lookups, which count as such, without regard to what they find. -/
def counted (w : Provision η) (r : Resolver) : Glances η where
  list secret := do
    let _ ← Engine.cacheGet r.aclCache (w.aclKey (Resolver.secretDigest secret))
    return ()
  policy name o := do
    let version ← .ofProblem o.cacheVersion
    let _ ← Engine.cacheGet r.policyCache (w.policyKey name version)
    return ()

end Glances

namespace Resolver

/-- Fetches the policy of a name and compiles it. -/
def compileAnew (g : Glances η) (w : Provision η) (ctx : ContextId) (name : Value) :
    Action η AnyCompiled := do
  let o ← fetchPolicy w ctx name
  g.policy name o
  w.compile o

/-- Fetches and compiles policies one after the other. -/
def compileEachAnew (g : Glances η) (w : Provision η) (ctx : ContextId) :
    List Value → Action η (List AnyCompiled)
  | [] => .done []
  | name :: rest => do
    let c ← compileAnew g w ctx name
    let more ← compileEachAnew g w ctx rest
    return c :: more

/-- The list of the policies that data names, each fetched and compiled once, in the order in which
the names first occur. -/
def resolveNamesAnew (g : Glances η) (w : Provision η) (ctx : ContextId) (names : Value) :
    Action η AnyAcl := do
  let distinct ← .ofProblem (Token.distinctNames names)
  let compiled ← compileEachAnew g w ctx distinct
  .ofProblem (AnyAcl.merge compiled)

/-- The list of the policies that data names, without caches. -/
def resolvePoliciesAnew (g : Glances η) (w : Provision η) (names : Value)
    (ctx : Option ContextId) : Action η AnyAcl :=
  withContext ctx fun id => do
    Engine.checkContext id
    resolveNamesAnew g w id names

/-- The list of a secret under a context: that of the policies which its token names. -/
def resolveSecretUnderAnew (g : Glances η) (w : Provision η) (ctx : ContextId) (secret : Value) :
    Action η Kept := do
  Engine.checkContext ctx
  match secret with
  | .text s =>
    if s = "" then .fault (.secretResolution "secret must be a non-empty string")
    else
      match s.unencodable? with
      | some p => .problem p
      | none => do
        g.list s
        let names ← fetchToken w ctx s
        let acl ← resolveNamesAnew g w ctx names
        return .acl acl
  | _ => .fault (.secretResolution "secret must be a non-empty string")

/-- The list of a secret, without caches. -/
def resolveSecretAnew (g : Glances η) (w : Provision η) (secret : Value)
    (ctx : Option ContextId) : Action η Kept :=
  withContext ctx fun id => resolveSecretUnderAnew g w id secret

end Resolver

/-! ### Following a resolution without its caches -/

/-- **A program that glances follows a resolver** through states related by `R`: the collaborators
answer alike, contexts are the same, and where the resolver looks something up in a cache, the
program glances. -/
structure Mirrors (h : Host (Chronicle η)) (r : Resolver) (g : Glances (Chronicle η))
    (R : Engine (Chronicle η) → Engine (Chronicle η) → Prop) : Prop where
  /-- A state is related to itself. -/
  refl : ∀ s, R s s
  /-- Contexts are the same. -/
  contexts : ∀ s t, R s t → s.contexts = t.contexts
  /-- Clocks are the same. -/
  clock : ∀ s t, R s t → s.clock = t.clock
  /-- So are the clocks of the machine. -/
  machine : ∀ s t, R s t → s.machine = t.machine
  /-- The states of the host are the same. -/
  host : ∀ s t, R s t → s.host = t.host
  /-- Tokens are the same. -/
  token : ∀ ctx secret s t, R s t → Matches R Eq ((r.provision h.noting).token ctx secret s)
    ((r.provision h.noting).token ctx secret t)
  /-- Policies are the same. -/
  policy : ∀ ctx name s t, R s t → Matches R Eq ((r.provision h.noting).policy ctx name s)
    ((r.provision h.noting).policy ctx name t)
  /-- Where a list is looked up, the program glances. -/
  glanceList : ∀ secret s t s' found, R s t → Engine.cacheGet r.aclCache
    (.ofAcl r.model.fingerprint (Resolver.secretDigest secret)) s = (.ok found, s') →
      ∃ t', g.list secret t = (.ok (), t') ∧ R s' t'
  /-- Where a compiled policy is looked up, the program glances. -/
  glancePolicy : ∀ name o version s t s' found, R s t → o.cacheVersion = .ok version →
    Engine.cacheGet r.policyCache (.ofPolicy name version r.model.fingerprint) s = (.ok found, s') →
      ∃ t', g.policy name o t = (.ok (), t') ∧ R s' t'

variable {h : Host (Chronicle η)} {r : Resolver} {cast : Cast}

namespace Mirrors

variable {g : Glances (Chronicle η)} {R : Engine (Chronicle η) → Engine (Chronicle η) → Prop}
  {s t : Engine (Chronicle η)} {ctx : ContextId}

/-- Whoever follows a resolver finds a context cancelled exactly when the resolver does. -/
theorem checkContext (m : Mirrors h r g R) (ctx : ContextId) (hst : R s t) :
    Matches R Eq (Engine.checkContext ctx s) (Engine.checkContext ctx t) :=
  .checkContext ctx hst (m.contexts s t hst) (m.clock s t hst) (m.machine s t hst)

/-- A collaborator that does alike is consulted alike. -/
theorem consult (m : Mirrors h r g R) {lookup : Lookup (Chronicle η)} {fault : Value → Fault}
    {subject : Value}
    (hlookup : ∀ s t, R s t → Matches R Eq (lookup ctx subject s) (lookup ctx subject t))
    (hst : R s t) : Matches R Eq (Resolver.consult lookup fault ctx subject s)
      (Resolver.consult lookup fault ctx subject t) := by
  refine .bind (m.checkContext ctx hst) (fun _ _ h => h) fun _ _ s₁ t₁ _ _ h₁ => ?_
  refine .bind (Q := Eq) ?_ (fun _ _ h => h) fun a b s₂ t₂ _ hab h₂ => ?_
  · have hmatch := hlookup s₁ t₁ h₁
    rcases hs : lookup ctx subject s₁ with ⟨p | a, s'⟩ <;>
      rcases ht : lookup ctx subject t₁ with ⟨p' | a', t'⟩ <;> rw [hs, ht] at hmatch <;>
      cases hmatch
    case error states => exact .error _ states
    case ok results states => exact .ok results states
  · exact .bind (m.checkContext ctx h₂) (fun _ _ h => h) fun _ _ _ _ _ _ h₃ => .ok hab h₃

/-- The same token is fetched. -/
theorem fetchToken (m : Mirrors h r g R) (secret : Text) (hst : R s t) :
    Matches R Eq (Resolver.fetchToken (r.provision h.noting) ctx secret s)
      (Resolver.fetchToken (r.provision h.noting) ctx secret t) := by
  refine .bind (m.consult (m.token ctx (.text secret)) hst) (fun _ _ h => h) ?_
  rintro a _ s' t' - rfl h'
  cases a.policies? with
  | none => exact .error _ h'
  | some names => exact .ok rfl h'

/-- The same policy is fetched. -/
theorem fetchPolicy (m : Mirrors h r g R) (name : Value) (hst : R s t) :
    Matches R Eq (Resolver.fetchPolicy (r.provision h.noting) ctx name s)
      (Resolver.fetchPolicy (r.provision h.noting) ctx name t) := by
  refine .bind (m.consult (m.policy ctx name) hst) (fun _ _ h => h) ?_
  rintro a _ s' t' - rfl h'
  cases a.policy? with
  | none => exact .error _ h'
  | some o => exact .ok rfl h'

end Mirrors

/-- Whoever looks everything up follows any resolver. -/
theorem Mirrors.counted : Mirrors h r (.counted (r.provision h.noting) r) Eq where
  refl _ := rfl
  contexts := by rintro s _ rfl; rfl
  clock := by rintro s _ rfl; rfl
  machine := by rintro s _ rfl; rfl
  host := by rintro s _ rfl; rfl
  token := by rintro ctx secret s _ rfl; exact .of_eq rfl rfl
  policy := by rintro ctx name s _ rfl; exact .of_eq rfl rfl
  glanceList := by
    rintro secret s _ s' found rfl hget
    exact ⟨s', Action.bind_of_ok hget, rfl⟩
  glancePolicy := by
    rintro name o version s _ s' found rfl hversion hget
    refine ⟨s', ?_, rfl⟩
    simp only [Glances.counted, hversion]
    exact Action.bind_of_ok hget

/-- Two engines differ at most in the caches of a cast. -/
structure Engine.SameButCaches (cast : Cast) (s t : Engine η) : Prop where
  /-- They have the same clock. -/
  clock : s.clock = t.clock
  /-- Their machines have the same clock. -/
  machine : s.machine = t.machine
  /-- They have the same contexts. -/
  contexts : s.contexts = t.contexts
  /-- The same resolutions are under way. -/
  running : s.running = t.running
  /-- They have the same other caches. -/
  caches : ∀ id, id ∉ cast.caches → s.cache id = t.cache id
  /-- The host is in the same state. -/
  host : s.host = t.host

namespace Engine.SameButCaches

variable {s t u : Engine η}

/-- An engine is the same as itself but for the caches. -/
protected theorem refl (cast : Cast) (s : Engine η) : s.SameButCaches cast s :=
  ⟨rfl, rfl, rfl, rfl, fun _ _ => rfl, rfl⟩

/-- Setting a cache of the cast leaves an engine the same but for the caches. -/
theorem setCache (h : s.SameButCaches cast t) {id : CacheId} (hid : id ∈ cast.caches)
    (c : EngineCache) : (s.setCache id c).SameButCaches cast t := by
  refine ⟨h.clock, h.machine, h.contexts, h.running, fun id' hid' => ?_, h.host⟩
  have hne : id' ≠ id := fun e => hid' (by rw [e]; exact hid)
  rw [cache_setCache_of_ne s c hne]
  exact h.caches id' hid'

end Engine.SameButCaches

/-- **A host that cannot tell what is in the caches of a cast:** its collaborators answer alike and
do alike whatever these keep. -/
structure Host.IgnoresCaches (cast : Cast) (h : Host (Chronicle η)) : Prop where
  /-- The collaborator for secrets. -/
  token : ∀ ctx secret s t, s.SameButCaches cast t →
    Matches (Engine.SameButCaches cast) Eq (h.token ctx secret s) (h.token ctx secret t)
  /-- The collaborator for policies. -/
  policy : ∀ ctx name s t, s.SameButCaches cast t →
    Matches (Engine.SameButCaches cast) Eq (h.policy ctx name s) (h.policy ctx name t)

/-- Whoever never looks anything up follows a resolver if its collaborators cannot tell. -/
theorem Mirrors.none (hh : h.IgnoresCaches cast) (hpolicies : r.policyCache ∈ cast.caches)
    (hlists : r.aclCache ∈ cast.caches) : Mirrors h r .none (Engine.SameButCaches cast) where
  refl := .refl cast
  contexts _ _ hst := hst.contexts
  clock _ _ hst := hst.clock
  machine _ _ hst := hst.machine
  host _ _ hst := hst.host
  token ctx secret s t hst := by
    refine hh.token ctx secret _ _
      ⟨hst.clock, hst.machine, hst.contexts, hst.running, hst.caches, ?_⟩
    simp only [Engine.countAsked, hst.host]
  policy ctx name s t hst := by
    have hmatch := hh.policy ctx name s t hst
    simp only [Resolver.provision, Host.noting]
    rcases hs : h.policy ctx name s with ⟨p | a, s'⟩ <;>
      rcases ht : h.policy ctx name t with ⟨p' | a', t'⟩ <;> rw [hs, ht] at hmatch <;> cases hmatch
    case error states => exact .error _ states
    case ok results states =>
      subst results
      refine .ok rfl ?_
      rcases a.policy? with _ | o
      · exact states
      · exact ⟨states.clock, states.machine, states.contexts, states.running, states.caches,
          by simp only [Engine.note, states.host]⟩
  glanceList secret s t s' found hst hget := by
    obtain rfl : _ = s' := congrArg Prod.snd hget
    exact ⟨t, rfl, hst.setCache hlists _⟩
  glancePolicy name o version s t s' found hst _ hget := by
    obtain rfl : _ = s' := congrArg Prod.snd hget
    exact ⟨t, rfl, hst.setCache hpolicies _⟩

end Gatehouse
