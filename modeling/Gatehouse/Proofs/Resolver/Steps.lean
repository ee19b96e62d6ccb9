import Gatehouse.Proofs.Resolver.Chronicle
import Gatehouse.Proofs.Resolver.Rules

/-!
# Runs in small steps

A call to a resolver does several things one after the other, and a collaborator may make further
calls in between.  Here every run is taken apart into steps each of which touches the caches of the
cast at most once (`Step`); what holds at the beginning and is kept by every step then holds
throughout, also in the middle of a call.  Main statements: each part of a resolution goes by such
steps (`Resolver.meets_fetchEach`, `Resolver.resolveSecretUnder_cases`), and so does every run
(`Runs.steps`).
-/

namespace Gatehouse

open Relation (ReflTransGen)

variable {η : Type} {cast : Cast} {h : Host (Chronicle η)} {r : Resolver}
  {s t : Engine (Chronicle η)} {ctx : ContextId}

/-- A text that can be resolved as a secret: it is not empty and can be encoded. -/
def Text.IsSecret (x : Text) : Prop := x ≠ "" ∧ x.isUnicode = true

instance (x : Text) : Decidable x.IsSecret :=
  inferInstanceAs (Decidable (x ≠ "" ∧ x.isUnicode = true))

/-- What happens to the caches of a cast and to the record at once. -/
inductive Step (cast : Cast) : Engine (Chronicle η) → Engine (Chronicle η) → Prop where
  /-- Something that does not write the caches. -/
  | other {s t : Engine (Chronicle η)} (h : s.Unwritten cast t) : Step cast s t
  /-- A lookup in a cache. -/
  | looked (id : CacheId) (key : CacheKey) (s : Engine (Chronicle η)) :
    Step cast s (Engine.cacheGet id key s).2
  /-- The host is asked for a token. -/
  | asked (s : Engine (Chronicle η)) : Step cast s s.countAsked
  /-- The host has answered with a policy. -/
  | answered (name : Value) (o : OfferedPolicy) (s : Engine (Chronicle η)) :
    Step cast s (s.note (.answered name o))
  /-- The compiled form of a policy that the host answered with is stored. -/
  | kept {s : Engine (Chronicle η)} {r : Resolver} {name version : Value} {o : OfferedPolicy}
    {c : AnyCompiled} (member : r ∈ cast.members) (offered : .answered name o ∈ s.host.events)
    (versioned : o.cacheVersion = .ok version) (compiled : o.compile r.model = .ok c) :
    Step cast s (Engine.cachePut r.policyCache (.ofPolicy name version r.model.fingerprint)
      (some (.policy c)) r.policyTtl s).2
  /-- The list of a secret is stored and taken down. -/
  | listed {s : Engine (Chronicle η)} {r : Resolver} {secret : Text} {a : AnyAcl}
    (member : r ∈ cast.members) (isSecret : secret.IsSecret)
    (t : Engine (Chronicle η)) (stored : t = (Engine.cachePut r.aclCache
      (.ofAcl r.model.fingerprint (Resolver.secretDigest secret)) (some (.acl a)) r.aclTtl s).2) :
    Step cast s
      (t.note (.listed r secret a ((t.cache r.aclCache).expiry t.clock r.aclTtl)))
  /-- A list is refused by its cache. -/
  | refused {s : Engine (Chronicle η)} {r : Resolver} {digest : Text} {a : AnyAcl} {e : Failure}
    (member : r ∈ cast.members) (failed : (Engine.cachePut r.aclCache
      (.ofAcl r.model.fingerprint digest) (some (.acl a)) r.aclTtl s).1 = .error e) :
    Step cast s (Engine.cachePut r.aclCache (.ofAcl r.model.fingerprint digest) (some (.acl a))
      r.aclTtl s).2
  /-- The list of a secret is dropped. -/
  | forgetSecret {r : Resolver} (member : r ∈ cast.members) (h : Host (Chronicle η))
    (secret : Value) (s : Engine (Chronicle η)) :
    Step cast s ((Call.forgetSecret secret).exec h r s)
  /-- A policy is dropped. -/
  | forgetPolicy {r : Resolver} (member : r ∈ cast.members) (h : Host (Chronicle η))
    (name : Value) (s : Engine (Chronicle η)) : Step cast s ((Call.forgetPolicy name).exec h r s)
  /-- The caches of a resolver are cleared. -/
  | forgetAll {r : Resolver} (member : r ∈ cast.members) (h : Host (Chronicle η))
    (s : Engine (Chronicle η)) : Step cast s (Call.forgetAll.exec h r s)

/-- Steps that do not touch the caches and the record. -/
theorem Step.of_eq (hcaches : t.caches = s.caches) (hhost : t.host = s.host) : Step cast s t :=
  .other (.of_eq hcaches hhost)

/-! ### What no step takes back -/

/-- A secret that can be encoded has a digest, and what is kept under that is dropped. -/
theorem Resolver.invalidateSecret_of_isUnicode (w : Provision η) (r : Resolver) {x : Text}
    (hx : x.isUnicode = true) : invalidateSecret w r (.text x) =
      Engine.cacheInvalidate r.aclCache (w.aclKey (secretDigest x)) := by
  simp only [invalidateSecret, digestAsked, Text.unencodable?_eq_none_iff.2 hx]
  rfl

/-- **Dropping the list of a secret** drops what is kept under its digest, if it has one, and else
does nothing. -/
theorem Resolver.invalidateSecret_cases (w : Provision η) (r : Resolver) (v : Value) (s : Engine η) :
    (∃ e, invalidateSecret w r v s = (.error e, s)) ∨ ∃ x, v = .text x ∧
      invalidateSecret w r v s = Engine.cacheInvalidate r.aclCache (w.aclKey (secretDigest x)) s := by
  rcases v with _ | _ | _ | _ | x | _ | _
  case text =>
    rcases hx : x.unencodable? with _ | p
    · have hunicode := Text.unencodable?_eq_none_iff.1 hx
      exact .inr ⟨x, rfl, by rw [invalidateSecret_of_isUnicode w r hunicode]⟩
    · refine .inl ⟨.ofProblem p, ?_⟩
      simp only [invalidateSecret, digestAsked, hx]
      rfl
  all_goals exact .inl ⟨_, rfl⟩

/-- Forgetting a secret does nothing to the host. -/
theorem Resolver.host_invalidateSecret (w : Provision η) (r : Resolver) (secret : Value)
    (s : Engine η) : (invalidateSecret w r secret s).2.host = s.host := by
  rcases invalidateSecret_cases w r secret s with ⟨e, h⟩ | ⟨x, -, h⟩ <;>
    exact congrArg (·.2.host) h

/-- Forgetting a policy does nothing to the host. -/
theorem Resolver.host_invalidatePolicy (w : Provision η) (r : Resolver) (name : Value)
    (s : Engine η) : (invalidatePolicy w r name s).2.host = s.host :=
  Action.host_bind (fun _ => rfl) (fun _ => Action.host_bind (fun _ => rfl) fun _ _ => rfl) s

/-- Emptying the caches does nothing to the host. -/
theorem Resolver.host_clearCaches (r : Resolver) (s : Engine η) :
    (clearCaches r s).2.host = s.host :=
  Action.host_bind (fun _ => rfl) (fun _ => Action.host_bind (fun _ => rfl) fun _ _ => rfl) s

namespace Engine

/-- The record of an engine goes on in another one. -/
structure GoesOn (s t : Engine (Chronicle η)) : Prop where
  /-- What was taken down stays. -/
  events : s.host.events <:+ t.host.events
  /-- The host is asked more and more often. -/
  asked : s.host.asked ≤ t.host.asked

/-- With the same host, the record goes on. -/
theorem GoesOn.of_eq (hhost : t.host = s.host) : s.GoesOn t :=
  ⟨hhost ▸ List.suffix_rfl, Nat.le_of_eq (by rw [hhost])⟩

/-- Taking something down, the record goes on. -/
theorem GoesOn.note (hhost : t.host = s.host) (e : Event) : s.GoesOn (t.note e) :=
  ⟨by rw [events_note, hhost]; exact List.suffix_cons _ _,
    Nat.le_of_eq (by rw [asked_note, hhost])⟩

end Engine

/-- The record goes on with every step. -/
theorem Step.goesOn (hstep : Step cast s t) : s.GoesOn t := by
  cases hstep with
  | other h => exact ⟨h.events ▸ List.suffix_rfl, Nat.le_of_eq h.asked.symm⟩
  | looked | refused | kept => exact .of_eq rfl
  | asked => exact ⟨List.suffix_rfl, Nat.le_succ _⟩
  | answered => exact .note rfl _
  | listed _ _ u hu =>
    have hhost : u.host = s.host := by rw [hu]; rfl
    exact .note hhost _
  | @forgetSecret r _ h secret =>
    have hhost : (Resolver.invalidateSecret (r.provision h.noting) r secret s).2.host = s.host :=
      Resolver.host_invalidateSecret _ r secret s
    simp only [Call.exec]
    rcases hresult : Resolver.invalidateSecret (r.provision h.noting) r secret s with ⟨e | b, t⟩ <;>
      rw [hresult] at hhost
    · cases secret <;> exact .of_eq hhost
    · cases secret with
      | text x => exact .note hhost _
      | _ => exact .of_eq hhost
  | @forgetPolicy r _ h name =>
    have hhost := Resolver.host_invalidatePolicy (r.provision h.noting) r name s
    simp only [Call.exec]
    rcases hresult : Resolver.invalidatePolicy (r.provision h.noting) r name s with ⟨e | n, t⟩ <;>
      rw [hresult] at hhost
    · exact .of_eq hhost
    · exact .note hhost _
  | @forgetAll r _ h =>
    have hhost := Resolver.host_clearCaches r s
    simp only [Call.exec]
    rcases hresult : Resolver.clearCaches r s with ⟨e | n, t⟩ <;> rw [hresult] at hhost
    · exact .of_eq hhost
    · exact .note hhost _

/-- What was taken down stays through a run. -/
theorem events_suffix_of_steps (hsteps : ReflTransGen (Step cast) s t) :
    s.host.events <:+ t.host.events := by
  induction hsteps with
  | refl => exact List.suffix_rfl
  | tail _ hstep ih => exact ih.trans hstep.goesOn.events

/-- The host is asked more and more often through a run. -/
theorem asked_le_of_steps (hsteps : ReflTransGen (Step cast) s t) :
    s.host.asked ≤ t.host.asked := by
  induction hsteps with
  | refl => exact Nat.le_refl _
  | tail _ hstep ih => exact Nat.le_trans ih hstep.goesOn.asked

/-! ### Resolutions go by steps -/

/-- Fetching a policy from a host with a record does what the host does, and takes down the policy. -/
theorem Action.Meets.fetchPolicy_noting {R : Engine (Chronicle η) → Engine (Chronicle η) → Prop}
    {P Q : Engine (Chronicle η) → Prop} {F : OfferedPolicy → Engine (Chronicle η) → Prop}
    {name : Value} (hpolicy : ∀ s, P s → ReflTransGen R s (h.policy ctx name s).2 ∧
      Q (h.policy ctx name s).2)
    (hnote : ∀ o s, Q s → R s (s.note (.answered name o)))
    (hnoted : ∀ o s, Q s → F o (s.note (.answered name o))) :
    (Resolver.fetchPolicy (r.provision h.noting) ctx name).Meets R P F := by
  have hlookup : ∀ s, P s → ReflTransGen R s ((r.provision h.noting).policy ctx name s).2 ∧
      ∀ a, ((r.provision h.noting).policy ctx name s).1 = .ok a → ∀ o, a.policy? = some o →
        F o ((r.provision h.noting).policy ctx name s).2 := by
    intro s hs
    obtain ⟨hsteps, hq⟩ := hpolicy s hs
    simp only [Resolver.provision]
    rcases h.noting_policy_cases ctx name s with ⟨hstate, hnone⟩ | ⟨a, o, ha, hanswer⟩
    · rw [hstate]
      refine ⟨hsteps, fun b hb o ho => ?_⟩
      rw [hnone b hb] at ho
      cases ho
    · rw [hanswer]
      refine ⟨.tail hsteps (hnote o _ hq), fun b hb o' ho' => ?_⟩
      obtain rfl := Except.ok.inj hb
      obtain rfl := Option.some.inj (ha.symm.trans ho')
      exact hnoted o _ hq
  exact (Action.Meets.fetchPolicy (Q := fun a s => ∀ o, a.policy? = some o → F o s) hlookup).mono
    (fun _ hs => hs) fun o _ ⟨_, ho, hf⟩ => hf o ho

/-- A host whose collaborators go by steps. -/
structure Host.GoesBySteps (cast : Cast) (h : Host (Chronicle η)) : Prop where
  /-- The collaborator for secrets. -/
  token : ∀ ctx secret s, ReflTransGen (Step cast) s (h.token ctx secret s).2
  /-- The collaborator for policies. -/
  policy : ∀ ctx name s, ReflTransGen (Step cast) s (h.policy ctx name s).2

/-- Taking down what policies the host answers with is a step. -/
theorem Host.GoesBySteps.noting (hh : h.GoesBySteps cast) :
    h.noting.GoesBySteps cast := by
  refine ⟨fun ctx secret s => .head (.asked s) (hh.token ctx secret s.countAsked),
    fun ctx name s => ?_⟩
  rcases h.noting_policy_cases ctx name s with ⟨hstate, -⟩ | ⟨a, o, -, hanswer⟩
  · rw [hstate]
    exact hh.policy ctx name s
  · rw [hanswer]
    exact .tail (hh.policy ctx name s) (.answered name o _)

/-- What will be stored of something fetched was compiled from a policy that the host answered
with. -/
def Resolver.Fetched.Justified (r : Resolver) (events : List Event) : Fetched → Prop
  | cached _ => True
  | fresh key c => ∃ name version o, .answered name o ∈ events ∧ o.cacheVersion = .ok version ∧
      o.compile r.model = .ok c ∧ key = .ofPolicy name version r.model.fingerprint

namespace Resolver

/-- What was justified stays so when something happens. -/
theorem Fetched.Justified.step {f : Fetched} (hf : f.Justified r s.host.events)
    (hstep : Step cast s t) : f.Justified r t.host.events := by
  cases f with
  | cached => trivial
  | fresh key c =>
    obtain ⟨name, version, o, hanswered, hrest⟩ := hf
    exact ⟨name, version, o, hstep.goesOn.events.subset hanswered, hrest⟩

/-- Fetching a token asks the host for it. -/
theorem meets_fetchToken (hh : h.GoesBySteps cast) (secret : Text) (n : Nat) :
    (fetchToken (r.provision h.noting) ctx secret).Meets (Step cast)
      (fun s => n ≤ s.host.asked) fun _ s => n < s.host.asked := by
  have hlookup : ∀ s, n ≤ s.host.asked →
      ReflTransGen (Step cast) s ((r.provision h.noting).token ctx (.text secret) s).2 ∧
      ∀ a, ((r.provision h.noting).token ctx (.text secret) s).1 = .ok a →
        n < ((r.provision h.noting).token ctx (.text secret) s).2.host.asked := by
    intro s hs
    have hsteps := hh.token ctx (.text secret) s.countAsked
    have hasked : s.host.asked + 1 ≤ _ := asked_le_of_steps hsteps
    exact ⟨.head (.asked s) hsteps, fun _ _ => Nat.lt_of_le_of_lt hs hasked⟩
  exact (Action.Meets.fetchToken (Q := fun _ s => n < s.host.asked) hlookup).mono (fun _ h => h)
    fun _ _ ⟨_, _, h⟩ => h

/-- A fetched policy is one that the host answered with. -/
theorem meets_fetchPolicy (hh : h.GoesBySteps cast) (name : Value) :
    (fetchPolicy (r.provision h.noting) ctx name).Meets (Step cast) (fun _ => True)
      fun o s => .answered name o ∈ s.host.events :=
  .fetchPolicy_noting (Q := fun _ => True) (fun s _ => ⟨hh.policy ctx name s, trivial⟩)
    (fun o s _ => .answered name o s) fun _ _ _ => List.mem_cons_self

/-- What is fetched is justified by what the host answered. -/
theorem meets_fetchCompiled (hh : h.GoesBySteps cast) (name : Value) :
    (fetchCompiled (r.provision h.noting) r ctx name).Meets (Step cast) (fun _ => True)
      fun f s => f.Justified r s.host.events := by
  refine .bind (meets_fetchPolicy hh name) fun o => .bind (Q := fun version s =>
    .answered name o ∈ s.host.events ∧ o.cacheVersion = .ok version)
    (.ofProblem fun _ _ hs hv => ⟨hs, hv⟩) fun version => ?_
  have hlook : (Engine.cacheGet r.policyCache ((r.provision h.noting).policyKey name version)).Meets
      (Step (η := η) cast) (fun s => .answered name o ∈ s.host.events ∧ o.cacheVersion = .ok version)
      fun _ s => .answered name o ∈ s.host.events ∧ o.cacheVersion = .ok version :=
    fun s hs => ⟨.single (.looked _ _ s), fun _ _ => hs⟩
  refine .bind hlook fun found => ?_
  rcases found with _ | kept
  · refine .bind .checkContext fun _ => .bind (Q := fun c s =>
      (.answered name o ∈ s.host.events ∧ o.cacheVersion = .ok version) ∧
        o.compile r.model = .ok c) (.ofProblem fun _ _ hs hc => ⟨hs, hc⟩) fun c => ?_
    exact .done fun s hs => ⟨name, version, o, hs.1.1, hs.1.2, hs.2, rfl⟩
  · exact .done fun _ _ => trivial

/-- All that is fetched is justified by what the host answered. -/
theorem meets_fetchEach (hh : h.GoesBySteps cast) (names : List Value) :
    (fetchEach (r.provision h.noting) r ctx names).Meets (Step cast) (fun _ => True)
      fun l s => ∀ f ∈ l, f.Justified r s.host.events := by
  refine (Action.Meets.fetchEach (G := fun _ f s => f.Justified r s.host.events)
    (fun name _ => (meets_fetchCompiled hh name).mono (fun _ h => h) fun _ _ hf => ⟨trivial, hf⟩)
    fun _ _ _ _ hstep hf => hf.step hstep).mono (fun _ h => h) fun _ _ h => ?_
  exact forall_mem_of_forall₂ h.2

/-- Storing what is justified goes by steps. -/
theorem meets_keepEach (hr : r ∈ cast.members) (l : List Fetched) :
    (keepEach r l).Meets (Step (η := η) cast) (fun s => ∀ f ∈ l, f.Justified r s.host.events)
      fun _ _ => True := by
  induction l with
  | nil => exact .done fun _ _ => trivial
  | cons f rest ih =>
    have hrest : (keepEach r rest).Meets (Step (η := η) cast)
        (fun s => ∀ g ∈ f :: rest, g.Justified r s.host.events) fun _ _ => True :=
      ih.mono (fun s hs g hg => hs g (List.mem_cons_of_mem _ hg)) fun _ _ _ => trivial
    cases f with
    | cached kept => exact hrest
    | fresh key c =>
      refine .bind (Q := fun _ s => ∀ g ∈ Fetched.fresh key c :: rest, g.Justified r s.host.events)
        (fun s hs => ?_) fun _ => hrest
      obtain ⟨name, version, o, hanswered, hversion, hcompile, rfl⟩ := hs _ List.mem_cons_self
      have hstep := Step.kept hr hanswered hversion hcompile
      exact ⟨.single hstep, fun _ _ g hg => (hs g hg).step hstep⟩

/-- Resolving names goes by steps. -/
theorem meets_resolveNames (hh : h.GoesBySteps cast) (hr : r ∈ cast.members) (names : Value) :
    (resolveNames (r.provision h.noting) r ctx names).Meets (Step cast) (fun _ => True)
      fun _ _ => True := by
  refine .bind (Q := fun _ _ => True) (.ofProblem fun _ _ _ _ => trivial) fun distinct =>
    .bind (meets_fetchEach hh distinct) fun fetched => .bind .checkContext fun _ =>
    .bind (Q := fun _ s => ∀ f ∈ fetched, f.Justified r s.host.events)
      (.ofProblem fun _ _ hs _ => hs) fun acl =>
    .bind (meets_keepEach hr fetched) fun _ => .done fun _ h => h

/-- What a resolution under a context leaves is what its steps lead to. -/
theorem steps_withContext {α : Type} {ctx : Option ContextId}
    {body : ContextId → Action (Chronicle η) α}
    (hbody : ∀ id, (body id).Meets (Step cast) (fun _ => True) fun _ _ => True)
    (s : Engine (Chronicle η)) :
    ReflTransGen (Step cast) s (withContext ctx body s).2 := by
  rw [withContext_eq]
  have hopen : Step cast s (s.opened ctx).2 :=
    .of_eq (Engine.caches_opened ctx s) (Engine.host_opened ctx s)
  exact .head hopen (.tail (hbody _ _ trivial).1 (.of_eq rfl rfl))

/-- **What comes of resolving a secret:** it is found in the cache, or resolved anew and stored, or
the resolution fails. -/
theorem resolveSecretUnder_cases (hh : h.GoesBySteps cast) (hr : r ∈ cast.members) {secret : Value}
    {o : Except Failure Kept × Engine (Chronicle η)}
    (hresult : resolveSecretUnder (r.provision h.noting) r ctx secret s = o) :
    (∃ x kept, secret = .text x ∧ x ≠ "" ∧ o.1 = .ok kept ∧ Engine.cacheGet r.aclCache
        (.ofAcl r.model.fingerprint (secretDigest x)) s = (.ok (some kept), o.2)) ∨
      (∃ x acl t, secret = .text x ∧ x.IsSecret ∧
        ReflTransGen (Step cast) s t ∧ s.host.asked < t.host.asked ∧ o.1 = .ok (.acl acl) ∧
        o.2 = (Engine.cachePut r.aclCache (.ofAcl r.model.fingerprint (secretDigest x))
          (some (.acl acl)) r.aclTtl t).2) ∨
      (∃ e, o.1 = .error e) ∧ ReflTransGen (Step cast) s o.2 := by
  rcases Action.bind_cases hresult with ⟨e, t, hcheck, rfl⟩ | ⟨⟨⟩, t, hcheck, ho⟩ <;>
    obtain rfl : s = t := Engine.eq_of_checkContext hcheck
  · exact .inr (.inr ⟨⟨e, rfl⟩, .refl⟩)
  clear hresult
  rcases secret with _ | _ | _ | _ | x | _ | _
  case text =>
    dsimp only at ho
    by_cases hx : x = ""
    · rw [if_pos hx] at ho
      subst ho
      exact .inr (.inr ⟨⟨_, rfl⟩, .refl⟩)
    rw [if_neg hx] at ho
    rcases hencodable : x.unencodable? with _ | p <;> simp only [hencodable] at ho
    case some =>
      subst ho
      exact .inr (.inr ⟨⟨_, rfl⟩, .refl⟩)
    have hlooked : Step cast s (Engine.cacheGet r.aclCache
        ((r.provision h.noting).aclKey (secretDigest x)) s).2 := .looked _ _ _
    rcases Action.bind_cases ho with ⟨e, t₁, hget, rfl⟩ | ⟨found, t₁, hget, ho⟩ <;>
      rw [hget] at hlooked
    · exact .inr (.inr ⟨⟨e, rfl⟩, .single hlooked⟩)
    rcases found with _ | kept
    · -- the host is asked for the token, so it has been asked once more
      have hasked : s.host.asked = t₁.host.asked := congrArg (fun o => o.2.host.asked) hget
      rcases Action.bind_cases ho with ⟨e, t₂, hfetch, rfl⟩ | ⟨names, t₂, hfetch, ho⟩ <;>
        obtain ⟨htoken, hmore⟩ := (meets_fetchToken hh x _).of_eq (Nat.le_refl _) hfetch
      · exact .inr (.inr ⟨⟨e, rfl⟩, .head hlooked htoken⟩)
      rcases Action.bind_cases ho with ⟨e, t₃, hresolve, rfl⟩ | ⟨acl, t₃, hresolve, ho⟩ <;>
        obtain ⟨hnames, -⟩ := (meets_resolveNames hh hr names).of_eq trivial hresolve
      · exact .inr (.inr ⟨⟨e, rfl⟩, .head hlooked (htoken.trans hnames)⟩)
      rcases Action.bind_cases ho with ⟨e, t₄, hput, rfl⟩ | ⟨⟨⟩, t₄, hput, rfl⟩
      · have hrefused := Step.refused hr (congrArg Prod.fst hput)
        have hsteps := ReflTransGen.tail (.head hlooked (htoken.trans hnames)) hrefused
        exact .inr (.inr ⟨⟨e, rfl⟩, (congrArg Prod.snd hput) ▸ hsteps⟩)
      · refine .inr (.inl ⟨x, acl, t₃, rfl, ⟨hx, Text.unencodable?_eq_none_iff.1 hencodable⟩,
          .head hlooked (htoken.trans hnames), ?_, rfl, (congrArg Prod.snd hput).symm⟩)
        rw [hasked]
        exact Nat.lt_of_lt_of_le (hmore names rfl) (asked_le_of_steps hnames)
    · subst ho
      exact .inl ⟨x, kept, rfl, hx, rfl, hget⟩
  all_goals
    subst ho
    exact .inr (.inr ⟨⟨_, rfl⟩, .refl⟩)

end Resolver

/-! ### Runs go by steps -/

namespace Call

/-- A list is not taken down if the host was not asked for a token. -/
theorem noteListed_of_asked_eq {secret : Value} {asked : Nat}
    {o : Except Failure Kept × Engine (Chronicle η)} (hasked : o.2.host.asked = asked) :
    noteListed r secret asked o = o.2 := by
  unfold noteListed
  split
  · rw [if_pos hasked]
  · rfl

/-- Nothing is taken down for a resolution that failed. -/
theorem noteListed_of_error {secret : Value} {asked : Nat} {e : Failure}
    (t : Engine (Chronicle η)) : noteListed r secret asked (.error e, t) = t := by
  cases secret <;> rfl

/-- At most one event is taken down. -/
theorem noteListed_cases (r : Resolver) (secret : Value) (asked : Nat)
    (o : Except Failure Kept × Engine (Chronicle η)) :
    noteListed r secret asked o = o.2 ∨ ∃ e, noteListed r secret asked o = o.2.note e := by
  unfold noteListed
  split
  · split
    · exact .inl rfl
    · exact .inr ⟨_, rfl⟩
  · exact .inl rfl

/-- Resolving a secret goes by steps. -/
theorem steps_secret (hh : h.GoesBySteps cast) (hr : r ∈ cast.members) (v : Value)
    (ctx : Option ContextId) (s : Engine (Chronicle η)) :
    ReflTransGen (Step cast) s ((secret v ctx).exec h r s) := by
  have hopen : Step cast s (s.opened ctx).2 :=
    .of_eq (Engine.caches_opened ctx s) (Engine.host_opened ctx s)
  have hasked : (s.opened ctx).2.host.asked = s.host.asked := by rw [Engine.host_opened]
  simp only [exec, Resolver.resolveSecret, Resolver.withContext_eq]
  generalize ho : Resolver.resolveSecretUnder (r.provision h.noting) r (s.opened ctx).1 v
    (s.opened ctx).2 = o
  have hclose : ∀ t : Engine (Chronicle η), Step cast t { t with running := s.running } :=
    fun _ => .of_eq rfl rfl
  rcases Resolver.resolveSecretUnder_cases hh hr ho with
    ⟨x, kept, -, -, -, hget⟩ | ⟨x, acl, t, rfl, hx, hsteps, hmore, hres, hput⟩ |
      ⟨⟨e, he⟩, hsteps⟩
  · have hlooked : o.2 = (Engine.cacheGet r.aclCache
        (.ofAcl r.model.fingerprint (Resolver.secretDigest x)) (s.opened ctx).2).2 := by rw [hget]
    rw [noteListed_of_asked_eq (by rw [hlooked]; exact hasked)]
    exact .head hopen (.head (hlooked ▸ .looked _ _ _) (.single (hclose o.2)))
  · have hlisted := Step.listed hr hx o.2 hput
    have hne : o.2.host.asked ≠ s.host.asked := by
      rw [hput, ← hasked]
      exact (Nat.ne_of_lt hmore).symm
    simp only [noteListed, hres, if_neg hne]
    exact .head hopen (.tail (.tail hsteps hlisted) (hclose _))
  · rw [he, noteListed_of_error]
    exact .head hopen (.tail hsteps (hclose o.2))

/-- **A call goes by steps.** -/
theorem steps_exec (hh : h.GoesBySteps cast) (hr : r ∈ cast.members) (c : Call)
    (s : Engine (Chronicle η)) : ReflTransGen (Step cast) s (c.exec h r s) := by
  cases c with
  | secret v ctx => exact steps_secret hh hr v ctx s
  | policies names ctx =>
    exact Resolver.steps_withContext (fun id => .bind .checkContext fun _ =>
      Resolver.meets_resolveNames hh hr names) s
  | policy name ctx =>
    refine Resolver.steps_withContext (fun id => .bind .checkContext fun _ =>
      .bind (Resolver.meets_fetchCompiled hh name) fun f =>
      .bind .checkContext fun _ =>
      .bind ((Resolver.meets_keepEach hr [f]).mono (fun s hf => ?_) fun _ _ h => h) fun _ =>
      .done fun _ _ => trivial) s
    exact List.forall_mem_singleton.2 hf
  | forgetSecret v => exact .single (.forgetSecret hr h v s)
  | forgetPolicy name => exact .single (.forgetPolicy hr h name s)
  | forgetAll => exact .single (.forgetAll hr h s)

end Call

/-- **A run goes by steps.** -/
theorem Runs.steps (hrun : Runs cast s t) : ReflTransGen (Step cast) s t := by
  induction hrun with
  | done => exact .refl
  | other _ hother ih => exact .tail ih (.other hother)
  | call _ hr _ _ c ih htoken hpolicy =>
    exact ih.trans (c.steps_exec ⟨htoken, hpolicy⟩ hr _)

/-- Collaborators that do only what a run may do go step by step. -/
theorem Host.KeepsTo.goesBySteps (hh : h.KeepsTo cast) : h.GoesBySteps cast :=
  ⟨fun ctx secret s => (hh.token ctx secret s).steps, fun ctx name s => (hh.policy ctx name s).steps⟩

end Gatehouse
