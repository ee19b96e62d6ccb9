import Gatehouse.Proofs.Acl.Decision
import Gatehouse.Proofs.Acl.Declared
import Gatehouse.Proofs.Resolver.Gathering
import Gatehouse.Proofs.Resolver.Lists

/-!
# Caches that several models share

Resolvers with different models may share their caches, and one cache may even keep both compiled
policies and lists.  Nothing that was made for one model is then answered for another, whatever
versions the host reports: the fingerprint is part of every key, and what stands behind an entry is
for that model (`Engine.IsModelled`).  Main statement: in every run, what a resolver answers is for
its own model, and it is never refused as made from several models (`Resolver.resolve_isFor`).
-/

namespace Gatehouse

open Relation (ReflTransGen)
open Resolver (secretDigest)

variable {η : Type} {cast : Cast} {h : Host (Chronicle η)} {r : Resolver}
  {s t : Engine (Chronicle η)} {ctx : ContextId}

/-! ### What is fetched -/

/-- What was fetched is a compiled policy for a model. -/
def Resolver.Fetched.IsCompiledFor (m : ValidModel) (f : Fetched) : Prop :=
  ∃ c, f.kept = .policy c ∧ c.IsFor m

/-- **A compiled policy that is found in a cache is for the model that it is looked up for,**
whoever stored it. -/
theorem Engine.IsFounded.isFor_of_cacheGet (hs : s.IsFounded cast) (hcast : cast.IsValidated)
    (hr : r ∈ cast.members) (hpolicies : r.policyCache ∈ cast.caches) {name version : Value}
    {kept : Kept} (hget : (Engine.cacheGet r.policyCache
      (.ofPolicy name version r.model.fingerprint) s).1 = .ok (some kept)) :
    (Resolver.Fetched.cached kept).IsCompiledFor r.model := by
  obtain ⟨e, hfind, -, rfl⟩ := Engine.exists_of_cacheGet (hs.plain _ hpolicies) hget
  cases hs.entry _ hpolicies _ e hfind with
  | list _ _ _ key => exact absurd key (CacheKey.normal_ofPolicy_ne_ofAcl _ _ _ _ _)
  | @policy r' name' version' o c hr' _ _ hcompile key hvalue =>
    obtain ⟨-, -, hfingerprint⟩ := CacheKey.normal_ofPolicy_eq_iff.1 key
    have hsame : r'.model.fingerprint = r.model.fingerprint :=
      (Value.text.inj (Value.text_eq_of_same hfingerprint)).symm
    have hfor := OfferedPolicy.isFor_of_compile (hcast.models r' hr') hcompile
    exact ⟨c, hvalue, hfor.congr hsame (hcast.definitions _ hr' _ hr hsame)⟩

namespace Resolver

/-- Compiled policies for one model are merged to a list for it, and are never refused as policies
of different models. -/
theorem Fetched.merge_spec {m : ValidModel} {l : List Fetched} (h : ∀ f ∈ l, f.IsCompiledFor m) :
    match merge l with
    | .ok a => a.IsFor m ∧ (a.loosen.policies = [] ↔ l = [])
    | .error p => ∀ name, p ≠ .fault (.modelMismatch name) := by
  obtain ⟨cs, hkept, hfor⟩ : ∃ cs, List.Forall₂ (fun f c => f.kept = .policy c) l cs ∧
      ∀ c ∈ cs, c.IsFor m := by
    induction l with
    | nil => exact ⟨[], .nil, fun _ hc => nomatch hc⟩
    | cons f rest ih =>
      obtain ⟨⟨c, hc, hfor⟩, hrest⟩ := List.forall_mem_cons.1 h
      obtain ⟨cs, hkept, hfors⟩ := ih hrest
      exact ⟨c :: cs, .cons hc hkept, List.forall_mem_cons.2 ⟨hfor, hfors⟩⟩
  have hnil : l = [] ↔ cs = [] := by
    rw [← List.length_eq_zero_iff, ← List.length_eq_zero_iff, hkept.length_eq]
  rw [Fetched.merge_eq hkept, hnil]
  exact AnyAcl.merge_spec hfor

section Fetching

variable (hcast : cast.IsValidated) (hr : r ∈ cast.members)
  (hpolicies : r.policyCache ∈ cast.caches) (hh : h.GoesBySteps cast)
include hcast hr hpolicies hh

/-- What is fetched is a compiled policy for the model. -/
theorem meets_fetchCompiled_isFor (name : Value) :
    (fetchCompiled (r.provision h.noting) r ctx name).Meets (Step cast) (Engine.IsFounded cast)
      fun f _ => f.IsCompiledFor r.model := by
  have hfetch : (fetchPolicy (r.provision h.noting) ctx name).Meets (Step cast)
      (Engine.IsFounded cast) fun _ s => s.IsFounded cast :=
    ((meets_fetchPolicy hh name).frame fun _ _ hstep hs => Step.isFounded hstep hs).mono
      (fun _ hs => ⟨hs, trivial⟩) fun _ _ hs => hs.1
  refine .bind hfetch fun o =>
    .bind (Q := fun _ s => s.IsFounded cast) (.ofProblem fun _ _ hs _ => hs) fun version => ?_
  have hlook : (Engine.cacheGet r.policyCache
      ((r.provision h.noting).policyKey name version)).Meets (Step (η := η) cast)
      (Engine.IsFounded cast) fun found _ => ∀ kept, found = some kept →
        (Fetched.cached kept).IsCompiledFor r.model := by
    intro s hs
    refine ⟨.single (.looked _ _ s), ?_⟩
    rintro _ hget kept rfl
    exact hs.isFor_of_cacheGet hcast hr hpolicies hget
  refine .bind hlook fun found => ?_
  rcases found with _ | kept
  · refine .bind .checkContext fun _ => .bind (Q := fun c _ => c.IsFor r.model)
      (.ofProblem fun c _ _ hc => OfferedPolicy.isFor_of_compile (hcast.models r hr) hc) fun c => ?_
    exact .done fun _ hc => ⟨c, rfl, hc⟩
  · exact .done fun _ hkept => hkept kept rfl

/-- All that is fetched are compiled policies for the model, one for each name. -/
theorem meets_fetchEach_isFor (names : List Value) :
    (fetchEach (r.provision h.noting) r ctx names).Meets (Step cast) (Engine.IsFounded cast)
      fun l _ => (∀ f ∈ l, f.IsCompiledFor r.model) ∧ (l = [] ↔ names = []) := by
  refine (Action.Meets.fetchEach (G := fun _ f _ => f.IsCompiledFor r.model) (fun name _ => ?_)
    fun _ _ _ _ _ hf => hf).mono (fun _ h => h) fun l _ hl => ⟨forall_mem_of_forall₂ hl.2, ?_⟩
  · exact ((meets_fetchCompiled_isFor hcast hr hpolicies hh name).frame
      fun _ _ hstep hs => Step.isFounded hstep hs).mono (fun _ hs => ⟨hs, hs⟩) fun _ _ hf => hf
  · rw [← List.length_eq_zero_iff, ← List.length_eq_zero_iff, hl.2.length_eq]

end Fetching

end Resolver

/-! ### What is answered -/

/-- What a request is answered with is for a model; the list of several policies is made of no
policies exactly if no policies are named. -/
def Request.IsAnsweredFor (m : ValidModel) : Request → Kept → Prop
  | secret _, k => ∃ a, k = .acl a ∧ a.IsFor m
  | policies names, k => ∃ a, k = .acl a ∧ a.IsFor m ∧
      (a.loosen.policies = [] ↔ Token.distinctNames names = .ok [])
  | policy _, k => ∃ c, k = .policy c ∧ c.IsFor m

/-- **Caches that do not mix up models:** something stands behind all entries, and every list that
was taken down is for the model of its resolver. -/
structure Engine.IsModelled (cast : Cast) (s : Engine (Chronicle η)) : Prop where
  /-- Something stands behind all entries. -/
  founded : s.IsFounded cast
  /-- The lists are for the models of their resolvers. -/
  lists : ∀ r secret a x, .listed r secret a x ∈ s.host.events →
    r ∈ cast.members ∧ a.IsFor r.model

namespace Engine.IsModelled

/-- In the beginning there are no lists. -/
theorem of_isFresh (hs : s.IsFresh cast) (hevents : ∀ r secret a x,
    .listed r secret a x ∉ s.host.events) : s.IsModelled cast :=
  ⟨hs.isFounded, fun r secret a x hmem => absurd hmem (hevents r secret a x)⟩

/-- Steps that take no lists down. -/
theorem of_steps (h : s.IsModelled cast) (hsteps : ReflTransGen (Step cast) s t)
    (hevents : ∀ r secret a x, .listed r secret a x ∈ t.host.events →
      .listed r secret a x ∈ s.host.events) : t.IsModelled cast :=
  ⟨isFounded_of_steps hsteps h.founded,
    fun r secret a x hmem => h.lists r secret a x (hevents r secret a x hmem)⟩

/-- Lists that were taken down are still for their models if nothing more is taken down. -/
theorem lists_of_host (h : s.IsModelled cast) (hhost : t.host = s.host) :
    ∀ r secret a x, .listed r secret a x ∈ t.host.events → r ∈ cast.members ∧ a.IsFor r.model :=
  hhost ▸ h.lists

/-- Lists that were taken down are still for their models if what is taken down is no list. -/
theorem lists_note (h : s.IsModelled cast) (hhost : t.host = s.host) {e : Event}
    (he : ∀ r secret a x, .listed r secret a x ≠ e) : ∀ r secret a x,
      .listed r secret a x ∈ (t.note e).host.events → r ∈ cast.members ∧ a.IsFor r.model :=
  fun r secret a x hmem => h.lists_of_host hhost r secret a x
    ((List.mem_cons.1 hmem).resolve_left (he r secret a x))

/-- **A list that is found in a cache is for the model that it is looked up for,** whoever stored
it. -/
theorem isFor_of_cacheGet (hs : s.IsModelled cast) (hcast : cast.IsValidated)
    (hr : r ∈ cast.members) (hlists : r.aclCache ∈ cast.caches) {digest : Text} {kept : Kept}
    (hget : (cacheGet r.aclCache (.ofAcl r.model.fingerprint digest) s).1 = .ok (some kept)) :
    ∃ a, kept = .acl a ∧ a.IsFor r.model := by
  obtain ⟨e, hfind, -, rfl⟩ := exists_of_cacheGet (hs.founded.plain _ hlists) hget
  obtain ⟨r', y, a, later, earlier, hevents, -, -, hfingerprint, -, hvalue, -⟩ :=
    hs.founded.list_of_find? hlists hfind
  obtain ⟨hr', hfor⟩ := hs.lists r' y a e.expiresAt (by rw [hevents]; simp)
  exact ⟨a, hvalue, hfor.congr hfingerprint (hcast.definitions _ hr' _ hr hfingerprint)⟩

end Engine.IsModelled

section Gathering

variable (hcast : cast.IsValidated) (hr : r ∈ cast.members)
  (hpolicies : r.policyCache ∈ cast.caches) (hlists : r.aclCache ∈ cast.caches)
  (hh : h.GoesBySteps cast)
include hcast hr hpolicies hh

/-- What is gathered for policy names is a list for the model. -/
theorem Resolver.meets_gatherNames_isFor (names : Value) :
    (gatherNames (r.provision h.noting) r ctx names).Meets (Step cast) (Engine.IsFounded cast)
      fun g _ => g.2.IsFor r.model ∧
        (g.2.loosen.policies = [] ↔ Token.distinctNames names = .ok []) := by
  refine (Action.Meets.gatherNames fun distinct _ =>
    meets_fetchEach_isFor hcast hr hpolicies hh distinct).mono (fun _ hs => hs) ?_
  rintro g _ ⟨distinct, l, hdistinct, ⟨hl, hnil⟩, hmerge, -⟩
  have hspec := Fetched.merge_spec hl
  rw [hmerge] at hspec
  refine ⟨hspec.1, hspec.2.trans (hnil.trans ?_)⟩
  rw [hdistinct, Except.ok.injEq]

include hlists in
/-- **What is gathered for a request is for the model.** -/
theorem Request.meets_gather_isAnsweredFor (q : Request) :
    (q.gather (r.provision h.noting) r ctx).Meets (Step cast) (Engine.IsModelled cast)
      fun g _ => q.IsAnsweredFor r.model g.2 := by
  cases q with
  | secret v =>
    refine .bind .checkContext fun _ => ?_
    rcases v with _ | _ | _ | _ | x | _ | _
    case text =>
      dsimp only
      split
      · exact .fault
      rcases x.unencodable? with _ | p
      case some => exact .fail
      -- a list that is found is for the model; if none is, the rest only needs what is founded
      have hlook : (Engine.cacheGet r.aclCache
          ((r.provision h.noting).aclKey (secretDigest x))).Meets (Step (η := η) cast)
          (Engine.IsModelled cast) fun found s => s.IsFounded cast ∧
            ∀ kept, found = some kept → ∃ a, kept = .acl a ∧ a.IsFor r.model := by
        intro s hs
        have hstep : Step cast s (Engine.cacheGet r.aclCache
          ((r.provision h.noting).aclKey (secretDigest x)) s).2 := .looked _ _ s
        refine ⟨.single hstep, ?_⟩
        rintro _ hget
        refine ⟨hstep.isFounded hs.founded, ?_⟩
        rintro kept rfl
        exact hs.isFor_of_cacheGet hcast hr hlists hget
      have htoken : (Resolver.fetchToken (r.provision h.noting) ctx x).Meets (Step cast)
          (Engine.IsFounded cast) fun _ s => s.IsFounded cast :=
        ((Resolver.meets_fetchToken hh x 0).frame fun _ _ hstep hs => Step.isFounded hstep hs).mono
          (fun _ hs => ⟨hs, Nat.zero_le _⟩) fun _ _ hs => hs.1
      refine (Action.Meets.gatherSecret (N := fun g _ => g.2.IsFor r.model) hlook
        (htoken.mono (fun _ hs => hs.1) fun _ _ hs => hs) fun names =>
        (Resolver.meets_gatherNames_isFor hcast hr hpolicies hh names).mono (fun _ hs => hs)
          fun _ _ hg => hg.1).mono (fun _ hs => hs) ?_
      rintro _ _ (⟨kept, rfl, -, hkept⟩ | ⟨g, rfl, hg⟩)
      · exact hkept kept rfl
      · exact ⟨g.2, rfl, hg⟩
    all_goals exact .fault
  | policies names =>
    refine .bind (.mono .checkContext (fun _ hs => hs.founded) fun _ _ hs => hs) fun _ =>
      .bind (Resolver.meets_gatherNames_isFor hcast hr hpolicies hh names) fun g =>
      .done fun _ hg => ⟨g.2, rfl, hg⟩
  | policy name =>
    refine .bind (.mono .checkContext (fun _ hs => hs.founded) fun _ _ hs => hs) fun _ =>
      .bind (Resolver.meets_fetchCompiled_isFor hcast hr hpolicies hh name) fun f =>
      .bind .checkContext fun _ => .done fun _ hf => hf

include hlists in
/-- **What a request is answered with is for the model.** -/
theorem Request.isAnsweredFor_of_resolve (hs : s.IsModelled cast) (c : Option ContextId)
    (q : Request) {k : Kept} (hk : (q.resolve (r.provision h.noting) r c s).1 = .ok k) :
    q.IsAnsweredFor r.model k := by
  have hopen : (s.opened c).2.IsModelled cast :=
    hs.of_steps (.single (.of_eq (Engine.caches_opened c s) (Engine.host_opened c s)))
      fun _ _ _ _ hmem => Engine.host_opened c s ▸ hmem
  rw [Request.resolve_eq] at hk
  rcases hgather : q.gather (r.provision h.noting) r (s.opened c).1 (s.opened c).2 with ⟨e | g, u⟩
  · rw [Action.thenStore, Action.bind_of_error hgather] at hk
    cases hk
  obtain ⟨-, hanswer⟩ := (Request.meets_gather_isAnsweredFor hcast hr hpolicies hlists hh q).of_eq
    hopen hgather
  rw [Action.thenStore, Action.bind_of_ok hgather] at hk
  obtain ⟨⟨⟩, v, -, hend⟩ := Action.bind_eq_ok_iff.1 (Prod.ext hk rfl)
  obtain rfl := Except.ok.inj (congrArg Prod.fst hend)
  exact hanswer g rfl

end Gathering

/-! ### Runs -/

section Keeping

variable (hr : r ∈ cast.members)
  (htoken : ∀ ctx secret u, u.IsModelled cast → (h.token ctx secret u).2.IsModelled cast)
  (hpolicy : ∀ ctx name u, u.IsModelled cast → (h.policy ctx name u).2.IsModelled cast)
include htoken hpolicy

/-- Gathering keeps apart what the collaborators keep apart. -/
theorem Request.isModelled_gather (hs : s.IsModelled cast) (q : Request) :
    (q.gather (r.provision h.noting) r ctx s).2.IsModelled cast := by
  have hgather : (q.gather (r.provision h.noting) r ctx).Meets
      (Engine.Keeping (Engine.IsModelled cast)) (fun _ => True) fun _ _ => True := by
    refine .gather (fun id key u => .single fun hu => ?_) (fun secret u => .single fun hu => ?_)
      (fun name u => .single fun hu => ?_) (fun o u => .single fun hu => ?_) q
    · exact hu.of_steps (.single (.looked id key u)) fun _ _ _ _ hmem => hmem
    · exact htoken _ _ _ (hu.of_steps (.single (.asked u)) fun _ _ _ _ hmem => hmem)
    · have hafter := hpolicy ctx name u hu
      simp only [Resolver.provision]
      rcases h.noting_policy_cases ctx name u with ⟨hstate, -⟩ | ⟨a, o, -, hanswer⟩
      · exact hstate ▸ hafter
      · rw [hanswer]
        exact hafter.of_steps (.single (.answered name o _)) fun _ _ _ _ hmem =>
          (List.mem_cons.1 hmem).resolve_left (by simp)
    · exact (Action.snd_ofProblem (o.compile r.model) u).symm ▸ hu
  exact Engine.keeping_of_reflTransGen (hgather s trivial).1 hs

/-- A resolution takes down no lists but those that its collaborators take down, which are for the
models of their resolvers. -/
theorem Request.lists_resolve (hs : s.IsModelled cast) (c : Option ContextId) (q : Request) :
    ∀ r' secret a x,
      .listed r' secret a x ∈ (q.resolve (r.provision h.noting) r c s).2.host.events →
      r' ∈ cast.members ∧ a.IsFor r'.model := by
  have hopen : (s.opened c).2.IsModelled cast :=
    hs.of_steps (.single (.of_eq (Engine.caches_opened c s) (Engine.host_opened c s)))
      fun _ _ _ _ hmem => Engine.host_opened c s ▸ hmem
  rw [Request.resolve_eq]
  dsimp only
  rw [Action.host_thenStore]
  exact (Request.isModelled_gather htoken hpolicy hopen q).lists

include hr in
/-- **A call keeps models apart** if the collaborators do. -/
theorem Call.isModelled_exec (hcast : cast.IsValidated) (hpolicies : r.policyCache ∈ cast.caches)
    (hlists : r.aclCache ∈ cast.caches) (hh : h.GoesBySteps cast) (hs : s.IsModelled cast)
    (c : Call) : (c.exec h r s).IsModelled cast := by
  refine ⟨isFounded_of_steps (c.steps_exec hh hr s) hs.founded, ?_⟩
  have hresolve := fun ctx q => Request.lists_resolve (r := r) htoken hpolicy hs ctx q
  cases c with
  | secret v ctx =>
    have hlisted := hresolve ctx (.secret v)
    have hanswer := fun k => Request.isAnsweredFor_of_resolve hcast hr hpolicies hlists hh hs ctx
      (.secret v) (k := k)
    simp only [Request.resolve] at hlisted hanswer
    simp only [exec, noteListed]
    rcases hcase : Resolver.resolveSecret (r.provision h.noting) r v ctx s with ⟨o, t⟩
    rw [hcase] at hlisted hanswer
    split
    · next x a hok =>
      split
      · exact hlisted
      · intro r' secret a' x' hmem
        rcases List.mem_cons.1 hmem with hnew | hold
        · cases hnew
          obtain ⟨a', hsame, hfor⟩ := hanswer (.acl a) hok
          cases hsame
          exact ⟨hr, hfor⟩
        · exact hlisted r' secret a' x' hold
    · exact hlisted
  | policies names ctx =>
    have hlisted := hresolve ctx (.policies names)
    rw [Request.resolve, Action.map_apply] at hlisted
    exact hlisted
  | policy name ctx => exact hresolve ctx (.policy name)
  | forgetSecret v =>
    have hsame := Resolver.host_invalidateSecret (r.provision h.noting) r v s
    simp only [exec]
    split <;> next hresult =>
      rw [hresult] at hsame
      first | exact hs.lists_note hsame (by simp) | exact hs.lists_of_host hsame
  | forgetPolicy name =>
    have hsame := Resolver.host_invalidatePolicy (r.provision h.noting) r name s
    simp only [exec]
    split <;> next hresult =>
      rw [hresult] at hsame
      first | exact hs.lists_note hsame (by simp) | exact hs.lists_of_host hsame
  | forgetAll =>
    have hsame := Resolver.host_clearCaches r s
    simp only [exec]
    split <;> next hresult =>
      rw [hresult] at hsame
      first | exact hs.lists_note hsame (by simp) | exact hs.lists_of_host hsame

end Keeping

/-- **Throughout a run that begins with empty caches, models are kept apart.** -/
theorem Runs.isModelled (hrun : Runs cast s t) (hcast : cast.IsValidated)
    (hcaches : ∀ r ∈ cast.members, r.policyCache ∈ cast.caches ∧ r.aclCache ∈ cast.caches)
    (hs : s.IsModelled cast) : t.IsModelled cast := by
  induction hrun with
  | done => exact hs
  | other _ hother ih =>
    exact (ih hs).of_steps (.single (.other hother)) fun _ _ _ _ hmem => hother.events ▸ hmem
  | call _ hr htoken hpolicy c ih ihtoken ihpolicy =>
    have hh : Host.GoesBySteps cast _ :=
      ⟨fun ctx x u => (htoken ctx x u).steps, fun ctx x u => (hpolicy ctx x u).steps⟩
    exact c.isModelled_exec hr ihtoken ihpolicy hcast (hcaches _ hr).1 (hcaches _ hr).2 hh (ih hs)

namespace Resolver

/-- **Caches never leak across models.**  Take any run of resolvers with validated models that share
caches which only they write, in whatever roles, with a host that answers whatever it likes.  A list
that a resolver answers with is then for its own model: it has the fingerprint of that model, or
none if no policies were named; every resource that it speaks of is defined in the model, and all
that it grants on the resource is declared for it there.  Wherever in the run the resolver has
fetched what there is for some names, it does not refuse to merge this for being of different
models. -/
theorem resolve_isFor {start : Engine (Chronicle η)} (hstart : start.IsFresh cast)
    (hevents : start.host.events = []) (hrun : Runs cast start s) (hcast : cast.IsValidated)
    (hcaches : ∀ r ∈ cast.members, r.policyCache ∈ cast.caches ∧ r.aclCache ∈ cast.caches)
    (hr : r ∈ cast.members) (hh : h.KeepsTo cast) (c : Option ContextId) :
    (∀ secret k t, resolveSecret (r.provision h.noting) r secret c s = (.ok k, t) →
      ∃ a, k = .acl a ∧ a.IsFor r.model) ∧
    (∀ names a t, resolvePolicies (r.provision h.noting) r names c s = (.ok a, t) →
      a.IsFor r.model ∧
        (a.loosen.modelFingerprint = .null ↔ Token.distinctNames names = .ok [])) ∧
    ∀ u, ReflTransGen (Step cast) s u → ∀ ctx names l v,
      fetchEach (r.provision h.noting) r ctx names u = (.ok l, v) →
        ∀ name, Fetched.merge l ≠ .error (.fault (.modelMismatch name)) := by
  obtain ⟨hpolicies, hlists⟩ := hcaches r hr
  have hs : s.IsModelled cast := hrun.isModelled hcast hcaches
    (.of_isFresh hstart fun _ _ _ _ hmem => by rw [hevents] at hmem; cases hmem)
  have hanswer := fun q k => Request.isAnsweredFor_of_resolve hcast hr hpolicies hlists
    hh.goesBySteps hs c q (k := k)
  refine ⟨fun secret k t hok => ?_, fun names a t hok => ?_,
    fun u hu ctx names l v hfetch name => ?_⟩
  · exact hanswer (.secret secret) k (congrArg Prod.fst hok)
  · have hok' : ((Request.policies names).resolve (r.provision h.noting) r c s).1 =
        .ok (.acl a) := by
      rw [Request.resolve, Action.map_apply, hok]
      rfl
    obtain ⟨a', hsame, hfor, hnil⟩ := hanswer (.policies names) _ hok'
    cases hsame
    refine ⟨hfor, ?_⟩
    rw [hfor.model, ← hnil]
    by_cases hempty : a.loosen.policies = [] <;> simp [hempty]
  · obtain ⟨-, hfor⟩ := (meets_fetchEach_isFor hcast hr hpolicies hh.goesBySteps names).of_eq
      (isFounded_of_steps hu hs.founded) hfetch
    have hspec := Fetched.merge_spec (hfor l rfl).1
    intro hmerge
    rw [hmerge] at hspec
    exact hspec name rfl

/-! ### An example -/

/-- A clerk for the model of books, who keeps everything in one cache. -/
def clerk : Resolver := ⟨AnyAcl.booksModel, 0, 0, none, none⟩

/-- A stranger, for whom nothing is defined, with the same cache. -/
def stranger : Resolver := ⟨⟨.empty, ∅, Registry.fingerprint .empty⟩, 0, 0, none, none⟩

/-- The clerk and the stranger. -/
def counter : Cast := ⟨{clerk, stranger}, {0}⟩

/-- An office in which every secret is bound to a policy without rules. -/
def office : Host (Chronicle Unit) where
  token _ _ s := (.ok (.token ⟨["visitors"], none, ""⟩), s)
  policy _ _ s := (.ok (.policy ⟨"visitors", [], .text "1"⟩), s)

/-- The cache is empty when the office opens. -/
def opening : Engine (Chronicle Unit) :=
  (Engine.start ⟨(), 0, []⟩).setCache 0 (.memory (.create none 10))

/-- The clerk has resolved a secret. -/
def afterClerk : Engine (Chronicle Unit) :=
  (Call.secret (.text "key") none).exec office clerk opening

/-- The digests of the two models differ. -/
theorem isValidated_counter : counter.IsValidated := by
  have hbooks : AnyAcl.books.definitionText =
      "\x7b\"book\": \x7b\"aliases\": \x7b\"view\": [\"list\", \"read\"]\x7d, " ++
        "\"capabilities\": [\"list\", \"read\"]\x7d\x7d" := by
    cbv
  have hempty : Registry.definitionText .empty = "\x7b\x7d" := by decide +kernel
  have hne : Digest.ofText AnyAcl.books.definitionText ≠
      Digest.ofText (Registry.definitionText .empty) := by
    rw [hbooks, hempty]
    decide +kernel
  refine ⟨?_, ?_⟩
  · rintro _ (rfl | rfl)
    · exact (ValidModel.isValidated_of_validate AnyAcl.validate_books).1
    · rfl
  · rintro _ (rfl | rfl) _ (rfl | rfl) hsame
    · exact .refl _
    · exact absurd hsame hne
    · exact absurd hsame.symm hne
    · exact .refl _

/-- Whatever the stranger gets for the clerk's secret, it is for the stranger's model; and what he
gets for no names at all has no fingerprint. -/
theorem resolve_counter :
    (∀ k t, resolveSecret (stranger.provision office.noting) stranger (.text "key") none
      afterClerk = (.ok k, t) → ∃ a, k = .acl a ∧ a.IsFor stranger.model) ∧
    ∃ a t, resolvePolicies (stranger.provision office.noting) stranger (.list []) none
      afterClerk = (.ok a, t) ∧ a.loosen.modelFingerprint = .null := by
  have hfresh : opening.IsFresh counter :=
    ⟨by rintro _ rfl; exact trivial, by rintro _ rfl k; rfl⟩
  have hhost : office.KeepsTo counter := ⟨fun _ _ s => .done s, fun _ _ s => .done s⟩
  have hclerk : clerk ∈ counter.members := Or.inl rfl
  have hstranger : stranger ∈ counter.members := Or.inr rfl
  have hrun : Runs counter opening afterClerk :=
    .call (.done _) hclerk hhost.token hhost.policy _
  have hcaches : ∀ r ∈ counter.members, r.policyCache ∈ counter.caches ∧
      r.aclCache ∈ counter.caches := by
    rintro _ (rfl | rfl) <;> exact ⟨rfl, rfl⟩
  obtain ⟨hsecret, hpolicies, -⟩ :=
    resolve_isFor hfresh rfl hrun isValidated_counter hcaches hstranger hhost none
  obtain ⟨a, t, hok⟩ : ∃ a t, resolvePolicies (stranger.provision office.noting) stranger
      (.list []) none afterClerk = (.ok a, t) := ⟨_, _, rfl⟩
  exact ⟨hsecret (.text "key"), a, t, hok, (hpolicies (.list []) a t hok).2.2 rfl⟩

end Resolver

end Gatehouse
