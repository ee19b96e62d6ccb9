import Gatehouse.Resolver.Config
import Gatehouse.Resolver.Host

/-!
# Resolutions

A resolution turns a secret into an access control list: the host names the policies that the secret
is bound to, each is fetched and compiled, and the compiled policies are merged.  Compiled policies
and the lists of secrets are kept in caches.

Three rules hold throughout.  The context is checked before and after every collaborator is called,
so a caller who gave up gets no answer.  A problem of a collaborator is reported as it is if it is
breakage of the engine, and otherwise as a failed lookup with the problem as its cause, so a denial
is never taken for breakage.  And nothing is kept before every lookup has succeeded.
-/

namespace Gatehouse

/-- What a resolution works with. -/
structure Provision (η : Type) where
  /-- Looks up the token of a secret. -/
  token : Lookup η
  /-- Looks up the policy of a name. -/
  policy : Lookup η
  /-- Compiles a policy. -/
  compile : OfferedPolicy → Action η AnyCompiled
  /-- The fingerprint of the model, which is part of all keys. -/
  fingerprint : Value

namespace Provision

variable {η : Type}

/-- The key of the list of a secret, by the digest of the secret. -/
def aclKey (w : Provision η) (secretDigest : Text) : CacheKey :=
  .ofAcl w.fingerprint secretDigest

/-- The key of the compiled form of a policy that was asked for by a name. -/
def policyKey (w : Provision η) (name version : Value) : CacheKey :=
  .ofPolicy name version w.fingerprint

end Provision

namespace Resolver

variable {η : Type}

/-- What a resolver works with in a host: the host's collaborators and its own model. -/
def provision (r : Resolver) (host : Host η) : Provision η where
  token := host.token
  policy := host.policy
  compile := fun o => .ofProblem (o.compile r.model)
  fingerprint := r.model.fingerprint

/-- The digest that stands for a secret that can be encoded. -/
def secretDigest (secret : Text) : Text := Digest.ofText secret

/-- The digest that stands for data that is offered as a secret: only a text has one, and only if it
can be encoded. -/
def digestAsked : Value → Except Problem Text
  | .text secret =>
    match secret.unencodable? with
    | some p => .error p
    | none => .ok (secretDigest secret)
  | v => .error (.lacks v.shapeName "encode")

/-- The failure that a collaborator's problem is reported as. -/
def hostFailure (lookupFault : Value → Fault) (p : Problem) : Failure :=
  if p.isEngine then .ofProblem p else ⟨.fault (lookupFault p.reason), some p⟩

/-- Calls a collaborator under a context that is live before and after. -/
def consult (lookup : Lookup η) (lookupFault : Value → Fault) (ctx : ContextId)
    (subject : Value) : Action η Answer := do
  Engine.checkContext ctx
  let answer ← fun s => match lookup ctx subject s with
    | (.ok a, s) => (.ok a, s)
    | (.error p, s) => (.error (hostFailure lookupFault p), s)
  Engine.checkContext ctx
  return answer

/-- The wording for an answer of a wrong kind. -/
def wrongAnswer (a : Answer) (expected : Text) : Text :=
  "resolver returned " ++ a.kindName ++ ", expected a " ++ expected

/-- The reason to refuse an answer that is not what was asked for. -/
def refusalReason (a : Answer) (subject expected : Text) : Text :=
  match a with
  | .nothing => subject ++ " not found"
  | a => wrongAnswer a expected

/-- Fetches the token of a secret; what it lists as policies. -/
def fetchToken (w : Provision η) (ctx : ContextId) (secret : Text) : Action η Value := do
  let a ← consult w.token .secretResolution ctx (.text secret)
  match a.policies? with
  | some policies => return policies
  | none => .fault (.secretResolution (refusalReason a "secret" "token"))

/-- Fetches the policy of a name. -/
def fetchPolicy (w : Provision η) (ctx : ContextId) (name : Value) : Action η OfferedPolicy := do
  let a ← consult w.policy (.policyResolution name) ctx name
  match a.policy? with
  | some p => return p
  | none => .fault (.policyResolution name (refusalReason a "policy" "policy"))

/-- What there is for a policy name. -/
inductive Fetched where
  /-- Kept in the cache. -/
  | cached (kept : Kept)
  /-- Compiled just now, with the key to keep it under. -/
  | fresh (key : CacheKey) (compiled : AnyCompiled)

/-- What is or will be kept for the name: a compiled policy, unless the cache keeps something else
in its place. -/
def Fetched.kept : Fetched → Kept
  | cached k => k
  | fresh _ c => .policy c

/-- The compiled policies, asked for their models, up to the first that is none, and the problem of
that. -/
def Fetched.policies : List Fetched → List AnyCompiled × Option Problem
  | [] => ([], none)
  | f :: rest =>
    match f.kept.asPolicy "model_fingerprint" with
    | .error p => ([], some p)
    | .ok c => (c :: (policies rest).1, (policies rest).2)

/-- The list of what was fetched. -/
def Fetched.merge (l : List Fetched) : Except Problem AnyAcl :=
  match policies l with
  | (found, none) => AnyAcl.merge found
  | (found, some p) => .error (AnyAcl.refusalBefore found p)

/-- Fetches the policy of a name and takes its compiled form from the cache or compiles it. -/
def fetchCompiled (w : Provision η) (r : Resolver) (ctx : ContextId) (name : Value) :
    Action η Fetched := do
  let o ← fetchPolicy w ctx name
  let version ← .ofProblem o.cacheVersion
  match ← Engine.cacheGet r.policyCache (w.policyKey name version) with
  | some kept => return .cached kept
  | none => do
    Engine.checkContext ctx
    let c ← w.compile o
    return .fresh (w.policyKey name version) c

/-- Fetches compiled policies one after the other. -/
def fetchEach (w : Provision η) (r : Resolver) (ctx : ContextId) :
    List Value → Action η (List Fetched)
  | [] => .done []
  | name :: rest => do
    let f ← fetchCompiled w r ctx name
    let more ← fetchEach w r ctx rest
    return f :: more

/-- Keeps what was compiled just now, in order. -/
def keepEach (r : Resolver) : List Fetched → Action η Unit
  | [] => .done ()
  | .cached _ :: rest => keepEach r rest
  | .fresh key c :: rest => do
    Engine.cachePut r.policyCache key (some (.policy c)) r.policyTtl
    keepEach r rest

/-- Resolves the policy names of a list under a live context; a repeated name counts once. -/
def resolveNames (w : Provision η) (r : Resolver) (ctx : ContextId) (names : Value) :
    Action η AnyAcl := do
  let distinct ← .ofProblem (Token.distinctNames names)
  let fetched ← fetchEach w r ctx distinct
  Engine.checkContext ctx
  let acl ← .ofProblem (Fetched.merge fetched)
  keepEach r fetched
  return acl

/-- Resolves a secret under a context: what is kept for it, or its list, which is then kept. -/
def resolveSecretUnder (w : Provision η) (r : Resolver) (ctx : ContextId) (secret : Value) :
    Action η Kept := do
  Engine.checkContext ctx
  match secret with
  | .text s =>
    if s = "" then .fault (.secretResolution "secret must be a non-empty string")
    else
      match s.unencodable? with
      | some p => .problem p
      | none => do
        match ← Engine.cacheGet r.aclCache (w.aclKey (secretDigest s)) with
        | some kept => return kept
        | none => do
          let names ← fetchToken w ctx s
          let acl ← resolveNames w r ctx names
          Engine.cachePut r.aclCache (w.aclKey (secretDigest s)) (some (.acl acl)) r.aclTtl
          return .acl acl
  | _ => .fault (.secretResolution "secret must be a non-empty string")

/-- Runs a resolution under the caller's context, or under a new one that nobody cancels. -/
def withContext {α : Type} (ctx : Option ContextId) (body : ContextId → Action η α) :
    Action η α := do
  let id ← Engine.contextFor ctx
  Engine.under id (body id)

/-- The access control list of a secret, or what the cache keeps in its place. -/
def resolveSecret (w : Provision η) (r : Resolver) (secret : Value) (ctx : Option ContextId) :
    Action η Kept :=
  withContext ctx fun id => resolveSecretUnder w r id secret

/-- The access control list of the policies that data names. -/
def resolvePolicies (w : Provision η) (r : Resolver) (names : Value) (ctx : Option ContextId) :
    Action η AnyAcl :=
  withContext ctx fun id => do
    Engine.checkContext id
    resolveNames w r id names

/-- The compiled form of one policy, or what the cache keeps in its place. -/
def resolvePolicy (w : Provision η) (r : Resolver) (name : Value) (ctx : Option ContextId) :
    Action η Kept :=
  withContext ctx fun id => do
    Engine.checkContext id
    let f ← fetchCompiled w r id name
    Engine.checkContext id
    keepEach r [f]
    return f.kept

/-! ### Forgetting -/

/-- Drops the list of one secret; whether it was there. -/
def invalidateSecret (w : Provision η) (r : Resolver) (secret : Value) : Action η Bool := do
  let digest ← .ofProblem (digestAsked secret)
  Engine.cacheInvalidate r.aclCache (w.aclKey digest)

/-- Drops every compiled form of a policy, whatever its version, and every list of this model, as
any of them may include the policy; how many entries there were. -/
def invalidatePolicy (w : Provision η) (r : Resolver) (name : Value) : Action η Nat := do
  let compiled ← Engine.cacheInvalidateWhere r.policyCache (CacheKey.beginsWith "policy" name)
  let lists ← Engine.cacheInvalidateWhere r.aclCache
    (CacheKey.beginsWith "acl" w.fingerprint)
  return compiled + lists

/-- Empties both caches; how many entries there were. -/
def clearCaches (r : Resolver) : Action η Nat := do
  let compiled ← Engine.cacheClear r.policyCache
  let lists ← Engine.cacheClear r.aclCache
  return compiled + lists

end Resolver

end Gatehouse
