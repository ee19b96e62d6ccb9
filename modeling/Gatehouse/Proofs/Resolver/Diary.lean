import Gatehouse.Proofs.Resolver.Gathering

/-!
# The diary of a resolution

To speak of what happens in the middle of a resolution, one lets it keep a diary: which collaborators
were called, in which state, with what answer, and which policies were compiled (`Request.deeds`).
The diary is out of reach of the collaborators and makes no difference to the outcome
(`Request.resolve_eq_diary`).  Main statement: before anything is stored, only calls and lookups lead
from one state to the next (`Request.leads_gather`).
-/

namespace Gatehouse

/-- What a collaborator is asked. -/
inductive Question where
  /-- The token of a secret. -/
  | token (secret : Value)
  /-- The policy of a name. -/
  | policy (name : Value)

/-- What a resolution does besides reading and writing caches. -/
inductive Deed (η : Type) where
  /-- A collaborator was called, in one state, and left another one. -/
  | consulted (question : Question) (before : Engine η) (answer : Except Problem Answer)
    (after : Engine η)
  /-- A policy was compiled. -/
  | compiled (o : OfferedPolicy) (outcome : Except Failure AnyCompiled)

/-- The state of a host with a diary. -/
structure Diary (η : Type) where
  /-- The state of the host. -/
  host : η
  /-- What was done so far, latest first. -/
  deeds : List (Deed η)

variable {η α β : Type}

namespace Engine

/-- The engine without its diary. -/
def plain (s : Engine (Diary η)) : Engine η :=
  ⟨s.clock, s.machine, s.contexts, s.running, s.caches, s.host.host⟩

/-- The engine with a diary. -/
def withDiary (s : Engine η) (deeds : List (Deed η)) : Engine (Diary η) :=
  ⟨s.clock, s.machine, s.contexts, s.running, s.caches, ⟨s.host, deeds⟩⟩

/-- An engine with a diary is itself without it. -/
@[simp] theorem plain_withDiary (s : Engine η) (deeds : List (Deed η)) :
    (s.withDiary deeds).plain = s := rfl

/-- A context is opened in the same way with a diary. -/
theorem opened_withDiary (ctx : Option ContextId) (s : Engine η) (deeds : List (Deed η)) :
    (s.withDiary deeds).opened ctx = ((s.opened ctx).1, (s.opened ctx).2.withDiary deeds) := by
  cases ctx <;> rfl

end Engine

/-- A collaborator whose calls are noted in a diary, which it does not see. -/
def Lookup.noted (lookup : Lookup η) (question : Value → Question) : Lookup (Diary η) :=
  fun ctx subject s =>
    let o := lookup ctx subject s.plain
    (o.1, o.2.withDiary (.consulted (question subject) s.plain o.1 o.2 :: s.host.deeds))

/-- What a resolution works with, where its deeds are noted. -/
def Provision.diary (w : Provision η) : Provision (Diary η) where
  token := Lookup.noted w.token .token
  policy := Lookup.noted w.policy .policy
  compile o s :=
    let c := w.compile o s.plain
    (c.1, c.2.withDiary (.compiled o c.1 :: s.host.deeds))
  fingerprint := w.fingerprint

namespace Request

/-- What is done in answering a request, in order. -/
def deeds (w : Provision η) (r : Resolver) (ctx : Option ContextId) (q : Request) (s : Engine η) :
    List (Deed η) :=
  (q.resolve w.diary r ctx (s.withDiary [])).2.host.deeds.reverse

end Request

/-! ### The diary makes no difference -/

/-- The first action does what the second one does, with a diary. -/
def Action.Details (x : Action (Diary η) α) (y : Action η α) : Prop :=
  ∀ s, y s.plain = ((x s).1, (x s).2.plain)

namespace Action.Details

open Resolver

variable {x : Action (Diary η) α} {y : Action η α} {f : α → Action (Diary η) β}
  {g : α → Action η β} {w : Provision η} {r : Resolver} {ctx : ContextId}

/-- Giving an answer is detailed by giving it. -/
theorem done (a : α) : (done a).Details (done a : Action η α) := fun _ => rfl

/-- A sequence is detailed part by part. -/
theorem bind (hx : x.Details y) (hf : ∀ a, (f a).Details (g a)) : (x >>= f).Details (y >>= g) := by
  intro s
  have hy := hx s
  rcases h : x s with ⟨e | a, t⟩ <;> rw [h] at hy
  · rw [bind_of_error hy, bind_of_error h]
  · rw [bind_of_ok hy, bind_of_ok h]
    exact hf a t

/-- Checking a context is detailed by checking it. -/
theorem checkContext (ctx : ContextId) :
    (Engine.checkContext ctx).Details (Engine.checkContext (η := η) ctx) := by
  intro s
  have hsame : (Engine.checkContext ctx s.plain).1 = (Engine.checkContext ctx s).1 :=
    Engine.fst_checkContext_congr (s := s.plain) (t := s) rfl rfl rfl ctx
  refine Prod.ext hsame ?_
  rw [Engine.snd_checkContext, Engine.snd_checkContext]

/-- A lookup is detailed by the same lookup. -/
theorem cacheGet (id : CacheId) (key : CacheKey) :
    (Engine.cacheGet id key).Details (Engine.cacheGet (η := η) id key) := fun _ => rfl

/-- A write is detailed by the same write. -/
theorem cachePut (id : CacheId) (key : CacheKey) (v : Option Kept) (ttl : Option Float) :
    (Engine.cachePut id key v ttl).Details (Engine.cachePut (η := η) id key v ttl) := fun _ => rfl

/-- Writes in a row are detailed by the same writes. -/
theorem storeEach (l : List Write) :
    (Engine.storeEach l).Details (Engine.storeEach (η := η) l) := by
  induction l with
  | nil => exact done ()
  | cons st rest ih => exact bind (cachePut _ _ _ _) fun _ => ih

/-- Consulting a collaborator is detailed by consulting it and writing that down. -/
theorem consult (lookup : Lookup η) (question : Value → Question) (fault : Value → Fault)
    (subject : Value) : (Resolver.consult (Lookup.noted lookup question) fault ctx subject).Details
      (Resolver.consult lookup fault ctx subject) := by
  refine bind (checkContext ctx) fun _ => bind (fun s => ?_) fun a =>
    bind (checkContext ctx) fun _ => done a
  simp only [Lookup.noted]
  rcases lookup ctx subject s.plain with ⟨p | a, t⟩ <;> rfl

/-- All parts of a resolution do the same with a diary. -/
theorem congruence (w : Provision η) (ctx : ContextId) :
    Request.Congruence Action.Details w.diary w ctx :=
  { done := done
    fail := fun _ _ => rfl
    bind := bind
    checkContext := checkContext ctx
    cacheGet := cacheGet
    token := fun _ _ => consult _ _ _ _
    policy := fun _ _ => consult _ _ _ _
    compile := fun _ _ => rfl
    fingerprint := rfl }

/-- Gathering with a diary is gathering. -/
theorem gather (q : Request) : (q.gather w.diary r ctx).Details (q.gather w r ctx) :=
  (congruence w ctx).gather q

/-- Gathering and storing is detailed by what details the gathering. -/
theorem thenStore {x : Action (Diary η) (List Write × α)} {y : Action η (List Write × α)}
    (h : x.Details y) : x.thenStore.Details y.thenStore :=
  bind h fun g => bind (storeEach g.1) fun _ => done _

end Action.Details

/-- **A diary makes no difference:** a request has the outcome that it has where a diary is kept, and
the diary is that of its two halves. -/
theorem Request.resolve_eq_diary (w : Provision η) (r : Resolver) (ctx : Option ContextId)
    (q : Request) (s : Engine η) : ∃ o t,
      (q.gather w.diary r (s.opened ctx).1).thenStore ((s.opened ctx).2.withDiary []) = (o, t) ∧
        q.resolve w r ctx s = (o, { t.plain with running := s.running }) ∧
        q.deeds w r ctx s = t.host.deeds.reverse := by
  rcases h : (q.gather w.diary r (s.opened ctx).1).thenStore ((s.opened ctx).2.withDiary [])
    with ⟨o, t⟩
  have hdetails : ((q.gather w.diary r (s.opened ctx).1).thenStore).Details
      ((q.gather w r (s.opened ctx).1).thenStore) := (Action.Details.gather q).thenStore
  have hplain := hdetails ((s.opened ctx).2.withDiary [])
  rw [h, Engine.plain_withDiary] at hplain
  refine ⟨o, t, rfl, ?_, ?_⟩
  · rw [resolve_eq, hplain]
  · rw [deeds, resolve_eq, Engine.opened_withDiary, h]

/-! ### Before anything is stored -/

/-- **Only calls and lookups lead from one engine to another,** with these deeds, latest first. -/
inductive Engine.Leads (s : Engine η) : List (Deed η) → Engine η → Prop where
  /-- Nothing was done. -/
  | start : Leads s [] s
  /-- A cache is looked up. -/
  | looked {deeds : List (Deed η)} {t : Engine η} (before : Leads s deeds t) (id : CacheId)
    (key : CacheKey) : Leads s deeds (cacheGet id key t).2
  /-- A collaborator is called. -/
  | consulted {deeds : List (Deed η)} {t : Engine η} (before : Leads s deeds t)
    (question : Question) (answer : Except Problem Answer) (after : Engine η) :
    Leads s (.consulted question t answer after :: deeds) after
  /-- A policy is compiled. -/
  | compiled {deeds : List (Deed η)} {t : Engine η} (before : Leads s deeds t) (o : OfferedPolicy)
    (outcome : Except Failure AnyCompiled) : Leads s (.compiled o outcome :: deeds) t

/-- Compiling a policy leaves the engine as it is. -/
def Provision.IsPure (w : Provision η) : Prop := ∀ o s, (w.compile o s).2 = s

/-- Compiling for a model does nothing else. -/
theorem Resolver.isPure_provision (r : Resolver) (h : Host η) : (r.provision h).IsPure :=
  fun o s => Action.snd_ofProblem (o.compile r.model) s

/-- **Gathering leads on:** only calls and lookups are made. -/
theorem Request.leads_gather {w : Provision η} (hw : w.IsPure) (r : Resolver) (ctx : ContextId)
    (q : Request) (s : Engine η) :
    s.Leads (q.gather w.diary r ctx (s.withDiary [])).2.host.deeds
      (q.gather w.diary r ctx (s.withDiary [])).2.plain := by
  let I : Engine (Diary η) → Prop := fun t => s.Leads t.host.deeds t.plain
  have hcompile : ∀ o t, I t → I (w.diary.compile o t).2 := by
    intro o t h
    have hplain : (w.diary.compile o t).2.plain = t.plain := hw o t.plain
    change s.Leads (_ :: t.host.deeds) (w.diary.compile o t).2.plain
    rw [hplain]
    exact h.compiled o _
  have hgather : (q.gather w.diary r ctx).Meets (Engine.Keeping I) (fun _ => True)
      fun _ _ => True :=
    .gather (fun id key t => .single fun h => h.looked id key)
      (fun secret t => .single fun h => h.consulted _ _ _)
      (fun name t => .single fun h => h.consulted _ _ _) (fun o t => .single (hcompile o t)) q
  have hstart : I (s.withDiary []) := .start
  exact Engine.keeping_of_reflTransGen (I := I) (hgather _ trivial).1 hstart

/-- A resolver without resources. -/
def sentry : Resolver := ⟨⟨.empty, ∅, "gate"⟩, 0, 1, none, none⟩

end Gatehouse
