import Gatehouse.Proofs.Engine.Rules
import Gatehouse.Proofs.Model.Agreement
import Gatehouse.Resolver.Resolution

/-!
# Runs of resolvers

Several resolvers share caches that only they write (`Cast`).  In a run they are called in any order
and by anyone, also by the collaborators of a resolution that is under way; between the calls
anything may happen that does not write these caches: the clock is set, contexts are made and
cancelled, the host changes, other caches are used, entries are dropped.

So that one can speak of what happened in a run, the state of the host is extended by a record of it
(`Chronicle`).  Nothing in the engine reads the record.  A run is a chain of such calls and changes
(`Runs`); a collaborator is free to do in each state what a run may do (`Host.KeepsTo`).
-/

namespace Gatehouse

/-- What happened in a run. -/
inductive Event where
  /-- The host answered with a policy when it was asked for a name. -/
  | answered (name : Value) (policy : OfferedPolicy)
  /-- A secret was resolved anew, and its list was stored until it expires. -/
  | listed (r : Resolver) (secret : Text) (acl : AnyAcl) (expiresAt : Option Float)
  /-- The list of a secret was dropped. -/
  | forgotSecret (r : Resolver) (secret : Text)
  /-- A policy was dropped, and with it the lists of the model. -/
  | forgotPolicy (r : Resolver) (name : Value)
  /-- The caches of a resolver were cleared. -/
  | cleared (r : Resolver)

/-- Whether an event ends the validity of the list that is kept in a cache for a model and the
digest of a secret: it is replaced, dropped or cleared. -/
def Event.Ends (id : CacheId) (fingerprint digest : Text) : Event → Prop
  | answered _ _ => False
  | listed r secret _ _ | forgotSecret r secret =>
    r.aclCache = id ∧ r.model.fingerprint = fingerprint ∧ Resolver.secretDigest secret = digest
  | forgotPolicy r _ => r.aclCache = id ∧ r.model.fingerprint = fingerprint
  | cleared r => r.policyCache = id ∨ r.aclCache = id

/-- The state of a host with a record of the run. -/
structure Chronicle (η : Type) where
  /-- The state of the host. -/
  host : η
  /-- How often the host was asked for the token of a secret. -/
  asked : Nat
  /-- What happened so far, latest first. -/
  events : List Event

variable {η : Type}

namespace Engine

/-- Takes down an event. -/
def note (s : Engine (Chronicle η)) (e : Event) : Engine (Chronicle η) :=
  { s with host := { s.host with events := e :: s.host.events } }

/-- Counts that the host is asked for a token. -/
def countAsked (s : Engine (Chronicle η)) : Engine (Chronicle η) :=
  { s with host := { s.host with asked := s.host.asked + 1 } }

/-- Taking something down leaves the caches. -/
@[simp] theorem cache_note (s : Engine (Chronicle η)) (e : Event) (id : CacheId) :
    (s.note e).cache id = s.cache id := rfl

/-- What is taken down is the latest event. -/
@[simp] theorem events_note (s : Engine (Chronicle η)) (e : Event) :
    (s.note e).host.events = e :: s.host.events := rfl

/-- Taking something down does not ask the host. -/
@[simp] theorem asked_note (s : Engine (Chronicle η)) (e : Event) :
    (s.note e).host.asked = s.host.asked := rfl

end Engine

/-- The host with a record kept of what its collaborators are asked and of the policies that they
answer with. -/
def Host.noting (h : Host (Chronicle η)) : Host (Chronicle η) where
  token ctx secret s := h.token ctx secret s.countAsked
  policy ctx name s :=
    match h.policy ctx name s with
    | (.ok a, t) => (.ok a, match a.policy? with
      | some o => t.note (.answered name o)
      | none => t)
    | (.error p, t) => (.error p, t)

/-- **What a host with a record does when it is asked for a policy:** what the host does; then it takes
down the answer if this is a policy. -/
theorem Host.noting_policy_cases (h : Host (Chronicle η)) (ctx : ContextId) (name : Value)
    (s : Engine (Chronicle η)) :
    (h.noting.policy ctx name s).2 = (h.policy ctx name s).2 ∧
        (∀ a, (h.noting.policy ctx name s).1 = .ok a → a.policy? = none) ∨
      ∃ a o, a.policy? = some o ∧
        h.noting.policy ctx name s = (.ok a, (h.policy ctx name s).2.note (.answered name o)) := by
  simp only [noting]
  rcases h.policy ctx name s with ⟨p | a, t⟩
  · exact .inl ⟨rfl, nofun⟩
  · rcases ha : a.policy? with _ | o <;> simp only [ha]
    · exact .inl ⟨trivial, fun b hb => Except.ok.inj hb ▸ ha⟩
    · exact .inr ⟨a, o, ha, rfl⟩

/-- What a resolver is called for. -/
inductive Call where
  /-- The list of a secret. -/
  | secret (secret : Value) (ctx : Option ContextId)
  /-- The list of several policies. -/
  | policies (names : Value) (ctx : Option ContextId)
  /-- The compiled form of a policy. -/
  | policy (name : Value) (ctx : Option ContextId)
  /-- Dropping the list of a secret. -/
  | forgetSecret (secret : Value)
  /-- Dropping a policy. -/
  | forgetPolicy (name : Value)
  /-- Dropping everything. -/
  | forgetAll

namespace Call

/-- The engine after the resolution of a secret, with a record if it was resolved anew: the host was
asked for the token then. -/
def noteListed (r : Resolver) (secret : Value) (asked : Nat)
    (o : Except Failure Kept × Engine (Chronicle η)) : Engine (Chronicle η) :=
  match secret, o.1 with
  | .text x, .ok (.acl a) =>
    if o.2.host.asked = asked then o.2
    else o.2.note (.listed r x a ((o.2.cache r.aclCache).expiry o.2.clock r.aclTtl))
  | _, _ => o.2

/-- What a call to a resolver does to the engine, with its record. -/
def exec (h : Host (Chronicle η)) (r : Resolver) (s : Engine (Chronicle η)) :
    Call → Engine (Chronicle η)
  | secret v ctx =>
    noteListed r v s.host.asked (Resolver.resolveSecret (r.provision h.noting) r v ctx s)
  | policies names ctx => (Resolver.resolvePolicies (r.provision h.noting) r names ctx s).2
  | policy name ctx => (Resolver.resolvePolicy (r.provision h.noting) r name ctx s).2
  | forgetSecret v =>
    match v, Resolver.invalidateSecret (r.provision h.noting) r v s with
    | .text x, (.ok _, t) => t.note (.forgotSecret r x)
    | _, (_, t) => t
  | forgetPolicy name =>
    match Resolver.invalidatePolicy (r.provision h.noting) r name s with
    | (.ok _, t) => t.note (.forgotPolicy r name)
    | (.error _, t) => t
  | forgetAll =>
    match Resolver.clearCaches r s with
    | (.ok _, t) => t.note (.cleared r)
    | (.error _, t) => t

end Call

/-- The resolvers that take part in a run, and caches that nobody but them writes. -/
structure Cast where
  /-- The resolvers. -/
  members : Set Resolver
  /-- The caches that only they write. -/
  caches : Set CacheId

/-- The models of a cast are validated, and different definitions have different fingerprints. -/
structure Cast.IsValidated (cast : Cast) : Prop where
  /-- The models are validated. -/
  models : ∀ r ∈ cast.members, r.model.IsValidated
  /-- Models with the same fingerprint have definitions that agree. -/
  definitions : ∀ r ∈ cast.members, ∀ r' ∈ cast.members,
    r.model.fingerprint = r'.model.fingerprint → r.model.resources.Agrees r'.model.resources

namespace Engine

/-- The caches of a cast are plain and empty. -/
structure IsFresh (cast : Cast) (s : Engine (Chronicle η)) : Prop where
  /-- The caches are plain. -/
  plain : ∀ id, id ∈ cast.caches → (s.cache id).IsPlain
  /-- The caches are empty. -/
  empty : ∀ id, id ∈ cast.caches → ∀ k, (s.cache id).find? k = none

/-- Whatever may happen to an engine if the caches of the cast are not written. -/
structure Unwritten (cast : Cast) (s t : Engine (Chronicle η)) : Prop where
  /-- The caches keep nothing new. -/
  caches : ∀ id, id ∈ cast.caches → (t.cache id).Within (s.cache id)
  /-- The host is not asked. -/
  asked : t.host.asked = s.host.asked
  /-- Nothing is taken down. -/
  events : t.host.events = s.host.events

/-- An engine with the same caches and the same record. -/
theorem Unwritten.of_eq {cast : Cast} {s t : Engine (Chronicle η)}
    (hcaches : t.caches = s.caches) (hhost : t.host = s.host) : s.Unwritten cast t := by
  refine ⟨fun id _ => ?_, by rw [hhost], by rw [hhost]⟩
  rw [cache, cache, hcaches]
  exact .refl _

end Engine

/-- **A run of a cast:** calls to its resolvers, under hosts whose collaborators do nothing but what
a run may do, and in between whatever does not write the caches of the cast. -/
inductive Runs (cast : Cast) : Engine (Chronicle η) → Engine (Chronicle η) → Prop where
  /-- Nothing happens. -/
  | done (s : Engine (Chronicle η)) : Runs cast s s
  /-- Something else happens. -/
  | other {s t u : Engine (Chronicle η)} (before : Runs cast s t) (h : t.Unwritten cast u) :
    Runs cast s u
  /-- A resolver of the cast is called. -/
  | call {s t : Engine (Chronicle η)} {h : Host (Chronicle η)} {r : Resolver}
    (before : Runs cast s t) (member : r ∈ cast.members)
    (token : ∀ ctx secret u, Runs cast u (h.token ctx secret u).2)
    (policy : ∀ ctx name u, Runs cast u (h.policy ctx name u).2) (c : Call) :
    Runs cast s (c.exec h r t)

/-- A host whose collaborators do nothing to the caches of a cast but call its resolvers. -/
structure Host.KeepsTo (cast : Cast) (h : Host (Chronicle η)) : Prop where
  /-- The collaborator for secrets. -/
  token : ∀ ctx secret s, Runs cast s (h.token ctx secret s).2
  /-- The collaborator for policies. -/
  policy : ∀ ctx name s, Runs cast s (h.policy ctx name s).2

end Gatehouse
