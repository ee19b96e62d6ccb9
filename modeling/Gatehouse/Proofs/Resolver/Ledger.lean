import Gatehouse.Proofs.Cache.Key
import Gatehouse.Proofs.Resolver.Gathering
import Gatehouse.Proofs.Resolver.Steps

/-!
# Where lists come from

A list that a resolver answers with comes from its cache, or it is merged from what there is for
some names (`Source`).  Finding this out is the first part of every resolution, which only puts the
pieces together then (`Request.gather_eq`).

So that one can speak of all the lists that were answered with in a run, also in the middle of other
resolutions, the state of the host is extended once more, by a ledger of these answers (`Ledger`,
`Recorded`).  Nothing in the engine and nothing that a collaborator does writes the ledger but a
resolver that answers; every recorded run is a run (`Recorded.runs`), and every answer is entered
(`Request.exists_receipt`).
-/

namespace Gatehouse

/-- What an answer is made of. -/
inductive Source where
  /-- The cache keeps it. -/
  | kept (k : Kept)
  /-- It is what there is for a name. -/
  | form (name : Value) (f : Resolver.Fetched)
  /-- It is the list that is merged from what there is for each of these names. -/
  | forms (names : List Value) (l : List Resolver.Fetched)

variable {η : Type}

namespace Resolver

/-- Finds out what the list of several policies is made of. -/
def nameSource (w : Provision η) (r : Resolver) (ctx : ContextId) (names : Value) :
    Action η Source := do
  let distinct ← .ofProblem (Token.distinctNames names)
  let fetched ← fetchEach w r ctx distinct
  return .forms distinct fetched

/-- Finds out what the list of a secret that has a digest is made of. -/
def secretSource (w : Provision η) (r : Resolver) (ctx : ContextId) (secret : Text) :
    Action η Source := do
  match ← Engine.cacheGet r.aclCache (w.aclKey (secretDigest secret)) with
  | some kept => return .kept kept
  | none => do
    let names ← fetchToken w ctx secret
    nameSource w r ctx names

end Resolver

namespace Request

open Resolver

/-- Finds out what the answer to a request is made of. -/
def source (w : Provision η) (r : Resolver) (ctx : ContextId) : Request → Action η Source
  | secret v => do
    Engine.checkContext ctx
    match v with
    | .text s =>
      if s = "" then .fault (.secretResolution "secret must be a non-empty string")
      else
        match s.unencodable? with
        | some p => .problem p
        | none => secretSource w r ctx s
    | _ => .fault (.secretResolution "secret must be a non-empty string")
  | policies names => do
    Engine.checkContext ctx
    nameSource w r ctx names
  | policy name => do
    Engine.checkContext ctx
    let f ← fetchCompiled w r ctx name
    return .form name f

/-- The writes of the list that a request is answered with. -/
def listWrites (w : Provision η) (r : Resolver) : Request → AnyAcl → List Write
  | secret (.text s), a => [aclStore w r s a]
  | _, _ => []

/-- Puts the answer to a request together, and what is to be stored. -/
def finish (w : Provision η) (r : Resolver) (ctx : ContextId) (q : Request) :
    Source → Action η (List Write × Kept)
  | .kept k => .done ([], k)
  | .form _ f => do
    Engine.checkContext ctx
    return (Fetched.stores r [f], f.kept)
  | .forms _ l => do
    Engine.checkContext ctx
    let a ← .ofProblem (Fetched.merge l)
    return (Fetched.stores r l ++ q.listWrites w r a, .acl a)

/-- **A resolution finds out what its answer is made of,** and then puts it together. -/
theorem gather_eq (w : Provision η) (r : Resolver) (ctx : ContextId) (q : Request) :
    q.gather w r ctx = q.source w r ctx >>= q.finish w r ctx := by
  cases q with
  | secret v =>
    simp only [gather, source, bind_assoc]
    congr 1
    funext ⟨⟩
    rcases v with _ | _ | _ | _ | x | _ | _
    case text =>
      dsimp only
      split
      · rfl
      rcases x.unencodable? with _ | p
      · simp only [gatherSecret, secretSource, bind_assoc]
        congr 1
        funext found
        cases found with
        | some kept => rfl
        | none =>
          simp only [gatherNames, nameSource, finish, listWrites, bind_assoc, pure_bind]
      · rfl
    all_goals rfl
  | policies names =>
    simp only [gather, source, gatherNames, nameSource, finish, listWrites, bind_assoc, pure_bind,
      List.append_nil]
  | policy name => simp only [gather, source, finish, bind_assoc, pure_bind]

namespace Congruence

variable {θ : Type} {C : ∀ {α : Type}, Action θ α → Action η α → Prop} {w : Provision θ}
  {w' : Provision η} {r : Resolver} {ctx : ContextId} (c : Congruence C w w' ctx)
include c

/-- Finding out what a list of names is made of is congruent. -/
theorem nameSource (names : Value) :
    C (Resolver.nameSource w r ctx names) (Resolver.nameSource w' r ctx names) :=
  c.bind (c.ofProblem _) fun distinct => c.bind (c.fetchEach distinct) fun _ => c.done _

/-- Finding out what the list of a secret is made of is congruent. -/
theorem secretSource (secret : Text) :
    C (Resolver.secretSource w r ctx secret) (Resolver.secretSource w' r ctx secret) := by
  simp only [Resolver.secretSource, Provision.aclKey, c.fingerprint]
  refine c.bind (c.cacheGet _ _) fun found => ?_
  cases found with
  | some kept => exact c.done _
  | none => exact c.bind (c.fetchToken secret) fun names => c.nameSource names

/-- What all parts respect, finding out what an answer is made of respects. -/
theorem source (q : Request) : C (q.source w r ctx) (q.source w' r ctx) := by
  cases q with
  | secret v =>
    refine c.bind c.checkContext fun _ => ?_
    rcases v with _ | _ | _ | _ | x | _ | _
    case text =>
      dsimp only
      split
      · exact c.fail _
      rcases x.unencodable? with _ | p
      · exact c.secretSource x
      · exact c.fail _
    all_goals exact c.fail _
  | policies names => exact c.bind c.checkContext fun _ => c.nameSource names
  | policy name =>
    exact c.bind c.checkContext fun _ => c.bind (c.fetchCompiled name) fun _ => c.done _

end Congruence

/-- Putting an answer together leaves the engine as it is. -/
theorem snd_finish (w : Provision η) (r : Resolver) (ctx : ContextId) (q : Request) (src : Source)
    (s : Engine η) : (q.finish w r ctx src s).2 = s := by
  cases src with
  | kept k => rfl
  | form name f => exact Action.snd_bind (Engine.snd_checkContext ctx) (fun _ _ => rfl) s
  | forms names l =>
    exact Action.snd_bind (Engine.snd_checkContext ctx)
      (fun _ => Action.snd_bind (Action.snd_ofProblem _) fun _ _ => rfl) s

/-- **How an answer has come about:** it was found out what it is made of, and it was put together
from that. -/
theorem exists_source_of_resolve {w : Provision η} {r : Resolver} {c : Option ContextId}
    {q : Request} {s : Engine η} {k : Kept} (h : (q.resolve w r c s).1 = .ok k) :
    ∃ src g t, q.source w r (s.opened c).1 (s.opened c).2 = (.ok src, t) ∧
      q.finish w r (s.opened c).1 src t = (.ok g, t) ∧ g.2 = k := by
  rw [resolve_eq] at h
  obtain ⟨g, u, hgather, h⟩ := Action.bind_eq_ok_iff.1 (Prod.ext h rfl)
  obtain ⟨⟨⟩, v, -, hend⟩ := Action.bind_eq_ok_iff.1 h
  obtain rfl := Except.ok.inj (congrArg Prod.fst hend)
  rw [gather_eq] at hgather
  obtain ⟨src, t, hsource, hfinish⟩ := Action.bind_eq_ok_iff.1 hgather
  obtain rfl : u = t := by rw [← snd_finish w r (s.opened c).1 q src t, hfinish]
  exact ⟨src, g, u, hsource, hfinish, rfl⟩

/-- The list that is merged is the answer, and it is stored for a secret. -/
theorem eq_of_finish_forms {w : Provision η} {r : Resolver} {ctx : ContextId} {q : Request}
    {names : List Value} {l : List Fetched} {g : List Write × Kept} {s t : Engine η}
    (h : q.finish w r ctx (.forms names l) s = (.ok g, t)) :
    ∃ a, Fetched.merge l = .ok a ∧ g = (Fetched.stores r l ++ q.listWrites w r a, .acl a) := by
  obtain ⟨⟨⟩, u, -, h⟩ := Action.bind_eq_ok_iff.1 h
  obtain ⟨a, v, hmerge, h⟩ := Action.bind_eq_ok_iff.1 h
  refine ⟨a, ?_, (Except.ok.inj (congrArg Prod.fst h)).symm⟩
  rcases hl : Fetched.merge l with p | b <;> rw [hl] at hmerge <;> cases hmerge
  rfl

/-- At most one list is stored, that of a secret. -/
theorem listWrites_cases (w : Provision η) (r : Resolver) (q : Request) (a : AnyAcl) :
    q.listWrites w r a = [] ∨
      ∃ x, q = .secret (.text x) ∧ q.listWrites w r a = [aclStore w r x a] := by
  cases q with
  | secret v =>
    cases v with
    | text x => exact .inr ⟨x, rfl, rfl⟩
    | _ => exact .inl rfl
  | _ => exact .inl rfl

end Request

/-! ### The ledger -/

/-- A list that a resolver has answered with. -/
structure Receipt where
  /-- The resolver. -/
  resolver : Resolver
  /-- What it was asked for. -/
  request : Request
  /-- What had happened when the resolution began. -/
  began : List Event
  /-- What the list was made of. -/
  source : Source
  /-- The list. -/
  acl : AnyAcl

/-- The state of a host with a ledger of answers. -/
structure Ledger (η : Type) where
  /-- The state of the host. -/
  host : η
  /-- The lists that were answered with so far, latest first. -/
  receipts : List Receipt

namespace Engine

/-- Enters answers. -/
def enter (s : Engine (Chronicle (Ledger η))) (new : List Receipt) :
    Engine (Chronicle (Ledger η)) :=
  { s with host := { s.host with
      host := { s.host.host with receipts := new ++ s.host.host.receipts } } }

/-- The answers so far. -/
def receipts (s : Engine (Chronicle (Ledger η))) : List Receipt := s.host.host.receipts

variable (s : Engine (Chronicle (Ledger η))) (new : List Receipt)

/-- Answers that are entered are the latest ones. -/
@[simp] theorem receipts_enter : (s.enter new).receipts = new ++ s.receipts := rfl

/-- Entering answers leaves the record of events. -/
@[simp] theorem events_enter : (s.enter new).host.events = s.host.events := rfl

/-- Entering answers leaves the caches. -/
@[simp] theorem cache_enter (id : CacheId) : (s.enter new).cache id = s.cache id := rfl

/-- Taking something down leaves the answers that were entered. -/
@[simp] theorem receipts_note (e : Event) : (s.note e).receipts = s.receipts := rfl

end Engine

/-- Whether a request asks for a list. -/
def Request.IsForList (q : Request) : Prop := ∀ name, q ≠ .policy name

/-- The answer to a request, if it asks for a list and gets one. -/
def Request.receipts (h : Host (Chronicle η)) (r : Resolver) (c : Option ContextId) (q : Request)
    (s : Engine (Chronicle η)) : List Receipt :=
  match q, (q.source (r.provision h.noting) r (s.opened c).1 (s.opened c).2).1,
      (q.resolve (r.provision h.noting) r c s).1 with
  | .policy _, _, _ => []
  | _, .ok src, .ok (.acl a) => [⟨r, q, s.host.events, src, a⟩]
  | _, _, _ => []

/-- **Every list that is answered with is entered.** -/
theorem Request.exists_receipt {h : Host (Chronicle η)} {r : Resolver} {c : Option ContextId}
    {q : Request} {s : Engine (Chronicle η)} {a : AnyAcl} (hq : q.IsForList)
    (hok : (q.resolve (r.provision h.noting) r c s).1 = .ok (.acl a)) :
    ∃ src, (q.source (r.provision h.noting) r (s.opened c).1 (s.opened c).2).1 = .ok src ∧
      q.receipts h r c s = [⟨r, q, s.host.events, src, a⟩] := by
  obtain ⟨src, -, t, hsource, -⟩ := exists_source_of_resolve hok
  refine ⟨src, by rw [hsource], ?_⟩
  unfold receipts
  rw [hsource, hok]
  cases q with
  | policy name => exact absurd rfl (hq name)
  | _ => rfl

/-- What is entered is the list that a request is answered with. -/
theorem Request.mem_receipts {h : Host (Chronicle η)} {r : Resolver} {c : Option ContextId}
    {q : Request} {s : Engine (Chronicle η)} {x : Receipt} (hx : x ∈ q.receipts h r c s) :
    q.IsForList ∧ ∃ src a, x = ⟨r, q, s.host.events, src, a⟩ ∧
      (q.source (r.provision h.noting) r (s.opened c).1 (s.opened c).2).1 = .ok src ∧
      (q.resolve (r.provision h.noting) r c s).1 = .ok (.acl a) := by
  unfold receipts at hx
  split at hx
  · cases hx
  · next src a hq hsource hok => exact ⟨hq, src, a, List.mem_singleton.1 hx, hsource, hok⟩
  · cases hx

/-- The lists that a call is answered with. -/
def Call.receipts (h : Host (Chronicle η)) (r : Resolver) (s : Engine (Chronicle η)) :
    Call → List Receipt
  | secret v ctx => (Request.secret v).receipts h r ctx s
  | policies names ctx => (Request.policies names).receipts h r ctx s
  | policy name ctx => (Request.policy name).receipts h r ctx s
  | _ => []

/-- What a call does to the engine, with its answer entered. -/
def Call.recorded (h : Host (Chronicle (Ledger η))) (r : Resolver)
    (s : Engine (Chronicle (Ledger η))) (c : Call) : Engine (Chronicle (Ledger η)) :=
  (c.exec h r s).enter (c.receipts h r s)

/-- A list that is found in the cache is answered with and entered, and nothing else happens. -/
theorem Call.recorded_of_find? {h : Host (Chronicle (Ledger η))} {r : Resolver}
    {s : Engine (Chronicle (Ledger η))} (hplain : (s.cache r.aclCache).IsPlain) {x : Text}
    (hx : x.IsSecret) {e : CacheEntry Deposit} {a : AnyAcl} (hfind : (s.cache r.aclCache).find?
      (CacheKey.ofAcl r.model.fingerprint (Resolver.secretDigest x)).normal = some e)
    (hlive : e.isExpired s.clock = false) (ha : e.value.value = .acl a) {ctx : Option ContextId}
    (hctx : (Engine.checkContext (s.opened ctx).1 (s.opened ctx).2).1 = .ok ()) :
    ((secret (.text x) ctx).recorded h r s).host.events = s.host.events ∧
      ((secret (.text x) ctx).recorded h r s).receipts =
        ⟨r, .secret (.text x), s.host.events, .kept (.acl a), a⟩ :: s.receipts := by
  let key := CacheKey.ofAcl r.model.fingerprint (Resolver.secretDigest x)
  let u := (Engine.cacheGet r.aclCache key (s.opened ctx).2).2
  have hget : (Engine.cacheGet r.aclCache key (s.opened ctx).2).1 = .ok (some (.acl a)) := by
    rw [Engine.fst_cacheGet (by rwa [Engine.cache_opened]) (CacheKey.unfit?_ofAcl _ _),
      Engine.cache_opened, Engine.clock_opened, hfind]
    simp [Option.filter_some, hlive, ha]
  have hsource : (Request.secret (.text x)).source (r.provision h.noting) r (s.opened ctx).1
      (s.opened ctx).2 = (.ok (.kept (.acl a)), u) := by
    refine (Action.bind_of_ok (Engine.checkContext_eq_ok _ hctx)).trans ?_
    dsimp only
    rw [if_neg hx.1, Text.unencodable?_eq_none_iff.2 hx.2]
    exact Action.bind_of_ok (Prod.ext hget rfl)
  have hresolve : (Request.secret (.text x)).resolve (r.provision h.noting) r ctx s =
      (.ok (.acl a), { u with running := s.running }) := by
    refine Request.resolve_of_gather (g := ([], .acl a)) ?_
    rw [Request.gather_eq, Action.bind_of_ok hsource]
    rfl
  have hhost : u.host = s.host := Engine.host_opened ctx s
  have hexec : (secret (.text x) ctx).exec h r s = { u with running := s.running } := by
    simp only [Request.resolve] at hresolve
    rw [exec, hresolve]
    exact noteListed_of_asked_eq (congrArg Chronicle.asked hhost)
  have hreceipts : (Request.secret (.text x)).receipts h r ctx s =
      [⟨r, .secret (.text x), s.host.events, .kept (.acl a), a⟩] := by
    unfold Request.receipts
    rw [hsource, hresolve]
  have hevents : u.host.events = s.host.events := congrArg Chronicle.events hhost
  have hbefore : u.receipts = s.receipts := congrArg (·.host.receipts) hhost
  rw [recorded, hexec, receipts, hreceipts]
  exact ⟨hevents, congrArg (_ :: ·) hbefore⟩

/-- **A run with a ledger.**  Collaborators do what a run may do, and only resolvers that answer
write the ledger. -/
inductive Recorded (cast : Cast) :
    Engine (Chronicle (Ledger η)) → Engine (Chronicle (Ledger η)) → Prop where
  /-- Nothing happens. -/
  | done (s : Engine (Chronicle (Ledger η))) : Recorded cast s s
  /-- Something else happens. -/
  | other {s t u : Engine (Chronicle (Ledger η))} (before : Recorded cast s t)
    (h : t.Unwritten cast u) (receipts : u.receipts = t.receipts) : Recorded cast s u
  /-- A resolver of the cast is called, and its answer is entered. -/
  | call {s t : Engine (Chronicle (Ledger η))} {h : Host (Chronicle (Ledger η))} {r : Resolver}
    (before : Recorded cast s t) (member : r ∈ cast.members)
    (token : ∀ ctx secret u, Recorded cast u (h.token ctx secret u).2)
    (policy : ∀ ctx name u, Recorded cast u (h.policy ctx name u).2) (c : Call) :
    Recorded cast s (c.recorded h r t)

/-- A recorded run is a run. -/
theorem Recorded.runs {cast : Cast} {s t : Engine (Chronicle (Ledger η))}
    (hrun : Recorded cast s t) : Runs cast s t := by
  induction hrun with
  | done s => exact .done s
  | other _ h _ ih => exact .other ih h
  | call _ hr _ _ c ih htoken hpolicy =>
    exact .other (.call ih hr htoken hpolicy c) ⟨fun _ _ => .refl _, rfl, rfl⟩

end Gatehouse
