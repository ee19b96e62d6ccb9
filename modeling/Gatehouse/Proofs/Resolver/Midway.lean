import Gatehouse.Proofs.Resolver.Forgotten
import Gatehouse.Proofs.Resolver.Undisturbed

/-!
# What is dropped while a resolution is under way

A collaborator may drop things from the caches of a resolver in the middle of a resolution, or in the
middle of one that another collaborator has asked for meanwhile (`Midst`).  Main statements: at every
later moment, what was dropped is forgotten but for what the resolutions that were under way had
obtained before (`Call.forgets_midway`); and that is not forgotten, as compiled forms and the list of
a secret are stored at the end of a resolution (`Resolver.invalidatePolicy_midway`).
-/

namespace Gatehouse

open Relation (ReflTransGen)
open Resolver (secretDigest)

variable {η : Type} {cast : Cast} {r : Resolver} {s t x x' : Engine (Chronicle (Ledger η))}

/-! ### What calls drop -/

namespace Call

/-- The calls that drop things. -/
def IsRemoval : Call → Prop
  | forgetSecret _ | forgetPolicy _ | forgetAll => True
  | _ => False

/-- The policies whose compiled forms a call drops from a cache. -/
def DropsForm (r : Resolver) (id : CacheId) (n : Value) : Call → Prop
  | forgetPolicy name => id = r.policyCache ∧ name.IsName n
  | forgetAll => r.Uses id
  | _ => False

/-- The lists that a call drops from a cache, by the fingerprint of the model and the digest of the
secret. -/
def DropsList (r : Resolver) (id : CacheId) (fingerprint digest : Text) : Call → Prop
  | forgetSecret v => id = r.aclCache ∧ fingerprint = r.model.fingerprint ∧
      ∃ z, v = .text z ∧ z.isUnicode = true ∧ digest = secretDigest z
  | forgetPolicy _ => id = r.aclCache ∧ fingerprint = r.model.fingerprint
  | forgetAll => r.Uses id
  | _ => False

/-- What a call drops that turns one engine into another, while some resolutions are under way. -/
def purge (c : Call) (r : Resolver) (x x' : Engine (Chronicle (Ledger η)))
    (pending : List (Pending η)) : Purge η where
  forms id n := c.DropsForm r id n
  lists id fingerprint digest := c.DropsList r id fingerprint digest
  events := x'.host.events
  receipts := x.receipts
  pending := pending

variable {c : Call} {id : CacheId}

/-- A call drops compiled forms only where its resolver keeps something. -/
theorem DropsForm.uses {n : Value} (h : c.DropsForm r id n) : r.Uses id := by
  cases c with
  | forgetPolicy name => exact .inl h.1
  | forgetAll => exact h
  | _ => exact absurd h not_false

/-- A call drops lists only where its resolver keeps something. -/
theorem DropsList.uses {fingerprint digest : Text} (h : c.DropsList r id fingerprint digest) :
    r.Uses id := by
  cases c with
  | forgetSecret v => exact .inr h.1
  | forgetPolicy name => exact .inr h.1
  | forgetAll => exact h
  | _ => exact absurd h not_false

/-- A call drops only what is kept in the caches of the cast. -/
theorem isWithin_purge (huses : ∀ id, r.Uses id → id ∈ cast.caches) (pending : List (Pending η)) :
    (c.purge r x x' pending).IsWithin cast :=
  ⟨fun _ _ h => huses _ h.uses, fun _ _ _ h => huses _ h.uses⟩

/-- **Nothing is left of what a call drops.** -/
structure Leaves (c : Call) (r : Resolver) (cast : Cast) (x' : Engine (Chronicle (Ledger η))) :
    Prop where
  /-- No compiled forms. -/
  form : ∀ id, id ∈ cast.caches → ∀ n version fingerprint e, (x'.cache id).find?
    (CacheKey.ofPolicy n version (.text fingerprint)).normal = some e → ¬ c.DropsForm r id n
  /-- No lists. -/
  list : ∀ id, id ∈ cast.caches → ∀ fingerprint digest e, (x'.cache id).find?
    (CacheKey.ofAcl (.text fingerprint) digest).normal = some e →
      ¬ c.DropsList r id fingerprint digest

/-- Nothing is left of a secret that is forgotten. -/
theorem leaves_forgetSecret (hx : x.IsFounded cast) (h : Host (Chronicle (Ledger η))) (v : Value) :
    (forgetSecret v).Leaves r cast ((forgetSecret v).exec h r x) := by
  refine ⟨fun _ _ _ _ _ _ _ h => h, ?_⟩
  rintro _ hid _ _ e he ⟨rfl, rfl, z, rfl, hz, rfl⟩
  let key := CacheKey.ofAcl r.model.fingerprint (secretDigest z)
  have hdropped : (Engine.cacheInvalidate r.aclCache key x).2.cache r.aclCache =
      ((x.cache r.aclCache).invalidate key.normal).2 := Engine.cache_setCache_self x r.aclCache _
  have hcache : ((forgetSecret (.text z)).exec h r x).cache r.aclCache =
      (Engine.cacheInvalidate r.aclCache key x).2.cache r.aclCache := by
    have hsame : Resolver.invalidateSecret (r.provision h.noting) r (.text z) x =
        Engine.cacheInvalidate r.aclCache key x :=
      congrFun (Resolver.invalidateSecret_of_isUnicode _ r hz) x
    simp only [exec, hsame]
    rcases Engine.cacheInvalidate r.aclCache key x with ⟨_ | _, t⟩ <;> rfl
  rw [hcache, hdropped, Cache.find?_invalidate (hx.plain _ hid) (CacheKey.unfit?_ofAcl _ _)] at he
  cases he

/-- Nothing is left of a policy that is forgotten. -/
theorem leaves_forgetPolicy (hx : x.IsFounded cast) (huses : ∀ id, r.Uses id → id ∈ cast.caches)
    (h : Host (Chronicle (Ledger η))) (name : Value) :
    (forgetPolicy name).Leaves r cast ((forgetPolicy name).exec h r x) := by
  obtain ⟨forms, lists, u, hresult, hdrops⟩ := Resolver.invalidatePolicy_spec hx
    (huses _ (.inl rfl)) (huses _ (.inr rfl)) h.noting name
  have hexec : (forgetPolicy name).exec h r x = u.note (.forgotPolicy r name) := by
    rw [exec, hresult]
  rw [hexec]
  constructor
  · rintro _ - n version fingerprint e he ⟨rfl, hn⟩
    exact hdrops.not_isFormOf he ⟨n, version, _, rfl, hn⟩
  · rintro _ - fingerprint digest e he ⟨rfl, rfl⟩
    exact hdrops.not_isListOf he ⟨digest, rfl⟩

/-- Nothing is left when everything is forgotten. -/
theorem leaves_forgetAll (hx : x.IsFounded cast) (huses : ∀ id, r.Uses id → id ∈ cast.caches)
    (h : Host (Chronicle (Ledger η))) : forgetAll.Leaves r cast (forgetAll.exec h r x) := by
  obtain ⟨n, c, hfirst, hwithin, hempty⟩ :=
    Engine.cacheClear_spec (hx.plain _ (huses _ (.inl rfl)))
  have hx' : (x.setCache r.policyCache c).IsFounded cast := hx.setCache fun _ => hwithin
  obtain ⟨n', c', hsecond, -, hempty'⟩ :=
    Engine.cacheClear_spec (hx'.plain _ (huses _ (.inr rfl)))
  have hresult : Resolver.clearCaches r x =
      (.ok (n + n'), (x.setCache r.policyCache c).setCache r.aclCache c') :=
    (Action.bind_of_ok hfirst).trans (Action.bind_of_ok hsecond)
  have hfind : ∀ id, r.Uses id → ∀ k,
      ((forgetAll.exec h r x).cache id).find? k = none := by
    intro id hid k
    rw [exec, hresult, Engine.cache_note]
    by_cases hne : id = r.aclCache
    · rw [hne, Engine.cache_setCache_self, hempty']
    · rw [Engine.cache_setCache_of_ne _ _ hne, hid.resolve_right hne, Engine.cache_setCache_self,
        hempty]
  constructor
  · intro id _ n version fingerprint e he hid
    cases (hfind id hid _).symm.trans he
  · intro id _ fingerprint digest e he hid
    cases (hfind id hid _).symm.trans he

/-- **What is dropped is forgotten at once.** -/
theorem heeded_purge (hc : c.IsRemoval) (hx : x.IsFounded cast)
    (huses : ∀ id, r.Uses id → id ∈ cast.caches) (h : Host (Chronicle (Ledger η))) :
    (c.purge r x (c.exec h r x) []).Heeded cast (c.exec h r x) := by
  obtain ⟨hfounded, hreceipts, hleaves⟩ : (c.exec h r x).IsFounded cast ∧
      (c.exec h r x).receipts = x.receipts ∧ c.Leaves r cast (c.exec h r x) := by
    have hof : ∀ {t}, x.Forgets cast t → t.IsFounded cast ∧ t.receipts = x.receipts := by
      intro t hforgets
      obtain ⟨new, hhost, -⟩ := hforgets.host
      exact ⟨hx.of_forgets hforgets, congrArg (·.host.receipts) hhost⟩
    cases c with
    | forgetSecret v =>
      obtain ⟨hfounded, hreceipts⟩ := hof (Step.forgets_forgetSecret hx h v)
      exact ⟨hfounded, hreceipts, leaves_forgetSecret hx h v⟩
    | forgetPolicy name =>
      obtain ⟨hfounded, hreceipts⟩ := hof (Step.forgets_forgetPolicy hx h name)
      exact ⟨hfounded, hreceipts, leaves_forgetPolicy hx huses h name⟩
    | forgetAll =>
      obtain ⟨hfounded, hreceipts⟩ := hof (Step.forgets_forgetAll hx h)
      exact ⟨hfounded, hreceipts, leaves_forgetAll hx huses h⟩
    | _ => exact absurd hc not_false
  refine ⟨hfounded, List.suffix_rfl, hreceipts ▸ List.suffix_rfl, fun id hid k e he => ⟨?_, ?_⟩,
    fun y hy => ?_⟩
  · rintro n version fingerprint rfl hn
    exact absurd hn (hleaves.form id hid n version fingerprint e he)
  · rintro fingerprint digest rfl hlist
    exact absurd hlist (hleaves.list id hid fingerprint digest e he)
  · have hnone : newer x.receipts (c.exec h r x).receipts = [] := by rw [hreceipts, newer_self]
    exact absurd (hnone ▸ hy) List.not_mem_nil

end Call

/-! ### In the middle of a run -/

/-- **A run in the middle of which one engine is turned into another,** while some resolutions are
under way: each of them goes on with the call to a collaborator in which that happens, or in which it
happens to another resolution that is asked for meanwhile. -/
inductive Midst (cast : Cast) (x x' : Engine (Chronicle (Ledger η))) :
    Engine (Chronicle (Ledger η)) → Engine (Chronicle (Ledger η)) → List (Pending η) → Prop where
  /-- It happens between the calls of a run. -/
  | here {s t : Engine (Chronicle (Ledger η))} (before : Recorded cast s x)
    (after : Recorded cast x' t) : Midst cast x x' s t []
  /-- It happens while a collaborator is called by a resolution. -/
  | inside {s u t : Engine (Chronicle (Ledger η))} {h : Host (Chronicle (Ledger η))} {r : Resolver}
    {q : Request} {ctx : Option ContextId} {deeds rest : List (Deed (Chronicle (Ledger η)))}
    {question : Question} {before after : Engine (Chronicle (Ledger η))}
    {answer : Except Problem Answer} {pending : List (Pending η)}
    (earlier : Recorded cast s u) (member : r ∈ cast.members)
    (token : ∀ ctx secret u, Recorded cast u (h.token ctx secret u).2)
    (policy : ∀ ctx name u, Recorded cast u (h.policy ctx name u).2)
    (diary : q.deeds (r.provision h.noting) r ctx u =
      deeds ++ .consulted question before answer after :: rest)
    (inner : Midst cast x x' (question.asked before)
      (h.call (u.opened ctx).1 question (question.asked before)) pending)
    (later : Recorded cast ((q.call ctx).recorded h r u) t) :
    Midst cast x x' s t (q.pending h r ctx u deeds :: pending)

/-- Something stands behind all entries, and did so whenever a collaborator was called. -/
structure Engine.WasFounded (cast : Cast) (s : Engine (Diary (Chronicle η))) : Prop where
  /-- It does now. -/
  now : s.plain.IsFounded cast
  /-- It did so whenever a collaborator was called. -/
  before : ∀ question before answer after,
    .consulted question before answer after ∈ s.host.deeds → before.IsFounded cast

namespace Engine.WasFounded

variable {η : Type} {s : Engine (Diary (Chronicle η))}

/-- A collaborator is called. -/
theorem consulted (hs : s.WasFounded cast) {after : Engine (Chronicle η)}
    (hafter : after.IsFounded cast) (question : Question) (answer : Except Problem Answer) :
    (after.withDiary (.consulted question s.plain answer after :: s.host.deeds)).WasFounded cast := by
  refine ⟨hafter, fun question' before answer' after' hmem => ?_⟩
  rcases List.mem_cons.1 hmem with heq | hmem
  · cases heq
    exact hs.now
  · exact hs.before _ _ _ _ hmem

/-- A policy is compiled. -/
theorem compiled (hs : s.WasFounded cast) {after : Engine (Chronicle η)}
    (hafter : after.IsFounded cast) (o : OfferedPolicy) (outcome : Except Failure AnyCompiled) :
    (after.withDiary (.compiled o outcome :: s.host.deeds)).WasFounded cast :=
  ⟨hafter, fun _ _ _ _ hmem =>
    hs.before _ _ _ _ ((List.mem_cons.1 hmem).resolve_left nofun)⟩

end Engine.WasFounded

/-- Something stands behind all entries whenever a collaborator is called. -/
theorem Request.isFounded_before {h : Host (Chronicle η)} {s : Engine (Chronicle η)}
    (hh : h.GoesBySteps cast) {q : Request} {ctx : Option ContextId} (hs : s.IsFounded cast)
    {question : Question} {before after : Engine (Chronicle η)} {answer : Except Problem Answer}
    (hmem : .consulted question before answer after ∈ q.deeds (r.provision h.noting) r ctx s) :
    before.IsFounded cast := by
  have hlooked : ∀ id key (t : Engine (Diary (Chronicle η))), t.WasFounded cast →
      (Engine.cacheGet id key t).2.WasFounded cast :=
    fun id key t ht => ⟨(Step.looked id key t.plain).isFounded ht.now, ht.before⟩
  have htoken : ∀ v t, t.WasFounded cast →
      ((r.provision h.noting).diary.token (s.opened ctx).1 v t).2.WasFounded cast :=
    fun v t ht => ht.consulted (isFounded_of_steps (hh.noting.token _ v t.plain) ht.now) _ _
  have hpolicy : ∀ n t, t.WasFounded cast →
      ((r.provision h.noting).diary.policy (s.opened ctx).1 n t).2.WasFounded cast :=
    fun n t ht => ht.consulted (isFounded_of_steps (hh.noting.policy _ n t.plain) ht.now) _ _
  have hcompile : ∀ o t, t.WasFounded cast →
      ((r.provision h.noting).diary.compile o t).2.WasFounded cast :=
    fun o t ht => ht.compiled ((r.isPure_provision h.noting o t.plain).symm ▸ ht.now) o _
  have hgather : (q.gather (r.provision h.noting).diary r (s.opened ctx).1).Meets
      (Engine.Keeping (Engine.WasFounded cast)) (fun _ => True) fun _ _ => True :=
    .gather (fun id key t => .single (hlooked id key t)) (fun v t => .single (htoken v t))
      (fun n t => .single (hpolicy n t)) (fun o t => .single (hcompile o t)) q
  have hopen : ((s.opened ctx).2.withDiary []).WasFounded cast :=
    ⟨(Step.of_eq (Engine.caches_opened ctx s) (Engine.host_opened ctx s)).isFounded hs, nofun⟩
  rw [Request.deeds_eq_gather, List.mem_reverse] at hmem
  exact (Engine.keeping_of_reflTransGen (hgather _ trivial).1 hopen).before _ _ _ _ hmem

variable {c : Call} {pending : List (Pending η)}

/-- **What is dropped in the middle of a run is forgotten,** but for what the resolutions under way had
obtained. -/
theorem Midst.heeded (hc : c.IsRemoval) (huses : ∀ id, r.Uses id → id ∈ cast.caches)
    {h₀ : Host (Chronicle (Ledger η))} (hmidst : Midst cast x (c.exec h₀ r x) s t pending)
    (hs : s.IsFounded cast) : (c.purge r x (c.exec h₀ r x) pending).Heeded cast t := by
  induction hmidst with
  | here before after =>
    have hx := isFounded_of_steps before.runs.steps hs
    exact (after.leads_purge (Call.isWithin_purge huses [])).heeded
      (Call.heeded_purge hc hx huses h₀)
  | @inside s u t h r' q ctx deeds rest question before after answer pending earlier member token
      policy diary inner later ih =>
    have hwithin : (c.purge r x (c.exec h₀ r x) pending).IsWithin cast :=
      Call.isWithin_purge huses pending
    have hh : h.GoesBySteps cast := ⟨fun ctx secret u => (token ctx secret u).runs.steps,
      fun ctx name u => (policy ctx name u).runs.steps⟩
    have hu := isFounded_of_steps earlier.runs.steps hs
    have hbefore : before.IsFounded cast := Request.isFounded_before hh hu
      (diary ▸ List.mem_append_right _ List.mem_cons_self)
    have hasked : (question.asked before).IsFounded cast := by
      cases question with
      | token => exact (Step.asked before).isFounded hbefore
      | policy => exact hbefore
    have hleads : ∀ ctx question u,
        (c.purge r x (c.exec h₀ r x) pending).Leads cast u (h.call ctx question u) := by
      intro ctx question u
      cases question with
      | token secret => exact (token ctx secret u).leads_purge hwithin
      | policy name => exact (policy ctx name u).leads_purge hwithin
    exact (later.leads_purge (Call.isWithin_purge huses _)).heeded ((ih hasked).of_pending hleads
      hwithin member diary (Request.enters_recorded
        ((q.call ctx).isFounded_recorded hu hh member)))

/-- **What is dropped while resolutions are under way is forgotten,** but for what these had obtained.
Let a resolver be told to drop a secret, a policy or everything at any moment of a run, also in the
middle of resolutions, by a collaborator that one of them has called.  At every later moment, once
these have ended, no compiled form that was dropped is in a cache again, unless it was compiled from
what the host answered with later, or is kept by a resolution that was under way and had compiled it
before; and no list that was dropped, unless its resolution began later, or was under way: if the host
had not answered that anything before, then the list was merged like one that was begun later.  The
same holds of all lists that are answered with. -/
theorem Call.forgets_midway {start : Engine (Chronicle (Ledger η))} (hstart : start.IsFresh cast)
    (hreached : ReflTransGen (Step cast) start s) (hc : c.IsRemoval)
    (huses : ∀ id, r.Uses id → id ∈ cast.caches) (h : Host (Chronicle (Ledger η)))
    (hmidst : Midst cast x (c.exec h r x) s t pending) : ∃ later new,
      t.host.events = later ++ (c.exec h r x).host.events ∧ t.receipts = new ++ x.receipts ∧
        (∀ id, id ∈ cast.caches → ∀ k e, (t.cache id).find? k = some e →
          (c.purge r x (c.exec h r x) pending).Allows cast later new id k e.value.value) ∧
        ∀ y ∈ new, (c.purge r x (c.exec h r x) pending).Covers y → ∃ z ∈ new, y.ComesFrom z ∧
          (c.purge r x (c.exec h r x) pending).Admits cast later z := by
  have ht := hmidst.heeded hc huses (isFounded_of_steps hreached hstart.isFounded)
  exact ⟨_, _, (newer_append_self ht.events).symm, (newer_append_self ht.receipts).symm, ht.kept,
    ht.given⟩

/-! ### An example -/

/-- What drops things answers nothing. -/
theorem Call.recorded_of_isRemoval (hc : c.IsRemoval) (h : Host (Chronicle (Ledger η)))
    (r : Resolver) (s : Engine (Chronicle (Ledger η))) : c.recorded h r s = c.exec h r s := by
  cases c with
  | forgetSecret | forgetPolicy | forgetAll => rfl
  | _ => exact absurd hc not_false

/-- The registrar drops the policy of the staff. -/
def reform (s : Engine (Chronicle (Ledger Unit))) : Engine (Chronicle (Ledger Unit)) :=
  (Call.forgetPolicy (.text "staff")).exec (registry "") registrar s

/-- A registry in which every secret is bound to the staff and the heads, and in which the staff is
reformed while the policy of the heads is asked for. -/
def reformers : Host (Chronicle (Ledger Unit)) where
  token _ _ s := (.ok (.token ⟨["staff", "heads"], none, ""⟩), s)
  policy _ name s :=
    if name.same (.text "heads") then (.ok (.policy ⟨"heads", [], .text "1"⟩), reform s)
    else (.ok (.policy ⟨"staff", [], .text "1"⟩), s)

/-- The reform is what may happen on the record. -/
theorem Recorded.reform (s : Engine (Chronicle (Ledger Unit))) :
    Recorded offices s (Gatehouse.reform s) := by
  have hrun : Recorded offices s
      ((Call.forgetPolicy (.text "staff")).recorded (Gatehouse.registry "") registrar s) :=
    .registry (.done s) (.inl rfl) "" _
  rwa [Call.recorded_of_isRemoval (c := .forgetPolicy _) trivial] at hrun

/-- The registry does nothing else. -/
theorem Recorded.reformers (ctx : ContextId) (name : Value) (s : Engine (Chronicle (Ledger Unit))) :
    Recorded offices s (Gatehouse.reformers.policy ctx name s).2 := by
  simp only [Gatehouse.reformers]
  split
  · exact .reform s
  · exact .done s

/-- The reform is taken down and nothing else is. -/
theorem events_reform {s : Engine (Chronicle (Ledger Unit))} (hs : s.IsFounded offices) :
    (reform s).host.events = .forgotPolicy registrar (.text "staff") :: s.host.events := by
  obtain ⟨forms, lists, u, hresult, -⟩ := Resolver.invalidatePolicy_spec hs (r := registrar)
    (.inl rfl) (.inr (.inl rfl)) (registry "").noting (.text "staff")
  have hhost : u.host = s.host := by
    rw [← Resolver.host_invalidatePolicy (registrar.provision (registry "").noting) registrar
      (.text "staff") s, hresult]
  rw [reform, Call.exec, hresult, Engine.events_note, hhost]

/-- Asked for the policy of the heads, the reformers make their reform. -/
theorem reformers_heads (ctx : ContextId) (s : Engine (Chronicle (Ledger Unit))) :
    (reformers.policy ctx (.text "heads") s).2 = reform s := by
  simp only [reformers, Value.same_self, if_true]

/-- What is asked for. -/
def key : Request := .secret (.text "key")

/-- The list of the secret was resolved, and the staff was reformed meanwhile. -/
def afterKey : Engine (Chronicle (Ledger Unit)) :=
  (key.call none).recorded reformers registrar vacant

/-- The compiled form of the policy of the staff, as it was before the reform. -/
def oldStaff : AnyCompiled := .strict ⟨"staff", blankModel.fingerprint, ∅⟩

/-- What happened while the key was resolved, latest first. -/
theorem events_afterKey : ∃ a expiresAt, afterKey.host.events =
    [.listed registrar "key" a expiresAt,
      .answered (.text "heads") (.ofPolicy ⟨"heads", [], .text "1"⟩)] ++
    [.forgotPolicy registrar (.text "staff"),
      .answered (.text "staff") (.ofPolicy ⟨"staff", [], .text "1"⟩)] :=
  ⟨_, _, rfl⟩

/-- The policy of the staff is not asked for after the reform. -/
theorem not_isFormed_staff {a : AnyAcl} {expiresAt : Option Float} {fingerprint : Text} {k : Kept} :
    ¬ k.IsFormed offices [.listed registrar "key" a expiresAt,
      .answered (.text "heads") (.ofPolicy ⟨"heads", [], .text "1"⟩)] fingerprint (.text "staff") := by
  rintro ⟨r, -, n, o, c, -, hsame, hmem, -⟩
  simp only [List.mem_cons, List.not_mem_nil, or_false, reduceCtorEq, false_or,
    Event.answered.injEq] at hmem
  obtain ⟨rfl, -⟩ := hmem
  exact absurd hsame (by decide)

/-- The old form of the policy of the staff is kept afterwards. -/
theorem find?_staff : ∃ e, (afterKey.cache registrar.policyCache).find?
    (CacheKey.ofPolicy (.text "staff") (.text "1") (.text blankModel.fingerprint)).normal = some e ∧
      e.value.value = .policy oldStaff :=
  Option.map_eq_some_iff.1 (show ((afterKey.cache registrar.policyCache).find?
    (CacheKey.ofPolicy (.text "staff") (.text "1") (.text blankModel.fingerprint)).normal).map
      (·.value.value) = some (.policy oldStaff) by decide +kernel)

/-- **What a resolution had obtained is not forgotten.**  The registrar is told to drop the policy of
the staff by the very registry that he asks for the policy of the heads.  When he has answered, its
compiled form is in his cache as it was before, although the registry was not asked for it since; and
so is the list that was merged from it. -/
theorem Resolver.invalidatePolicy_midway :
    blankModel.IsValidated ∧ vacant.IsFresh offices ∧
    (∀ ctx secret s, Recorded offices s (reformers.token ctx secret s).2) ∧
    (∀ ctx name s, Recorded offices s (reformers.policy ctx name s).2) ∧
    (∀ ctx s, (reformers.policy ctx (.text "heads") s).2 = reform s) ∧
    vacant.host.events = [] ∧ ∃ y later earlier,
      (key.resolve (registrar.provision reformers.noting) registrar none vacant).1 =
        .ok (.acl y.acl) ∧
      afterKey.host.events = later ++ .forgotPolicy registrar (.text "staff") :: earlier ∧
      (∃ e, (afterKey.cache registrar.policyCache).find?
        (CacheKey.ofPolicy (.text "staff") (.text "1") (.text blankModel.fingerprint)).normal =
          some e ∧ ¬ e.value.value.IsFormed offices later blankModel.fingerprint (.text "staff")) ∧
      (∃ e, (afterKey.cache registrar.aclCache).find?
        (CacheKey.ofAcl (.text blankModel.fingerprint) (secretDigest "key")).normal = some e ∧
          e.value.value = .acl y.acl) ∧
      afterKey.receipts = [y] ∧ ¬ y.IsMadeOf fun n k => (Value.text "staff").IsName n →
        k.IsFormed offices later registrar.model.fingerprint n := by
  obtain ⟨a, expiresAt, hevents⟩ := events_afterKey
  obtain ⟨e, hfind, -⟩ := find?_staff
  let form (name : Text) : Resolver.Fetched :=
    .fresh (.ofPolicy (.text name) (.text "1") (.text blankModel.fingerprint))
      (.strict ⟨name, blankModel.fingerprint, ∅⟩)
  let y : Receipt := ⟨registrar, key, [], .forms [.text "staff", .text "heads"]
    [form "staff", form "heads"], .strict ⟨∅, ["staff", "heads"], some blankModel.fingerprint⟩⟩
  obtain ⟨e', hfind', hvalue, -⟩ : ∃ e, (afterKey.cache registrar.aclCache).find?
      (CacheKey.ofAcl (.text blankModel.fingerprint) (secretDigest "key")).normal = some e ∧
        e.value = ⟨_, _, .acl y.acl⟩ ∧ e.expiresAt = none :=
    Cache.exists_find?_put (CacheKey.unfit?_ofAcl _ _) _ none
  refine ⟨isValidated_blankModel, isFresh_vacant, fun _ _ s => .done s, Recorded.reformers,
    reformers_heads, rfl, y, _, _, rfl, hevents, ⟨e, hfind, not_isFormed_staff⟩,
    ⟨e', hfind', by rw [hvalue]⟩, rfl, ?_⟩
  rintro ⟨names, l, hforms, -, hall⟩
  cases hforms
  exact not_isFormed_staff ((List.forall₂_cons.1 hall).1 ⟨rfl, rfl⟩)

/-- Whether the registry is asked for the policy of the heads, and has answered once. -/
def asksForHeads : Deed (Chronicle (Ledger Unit)) → Bool
  | .consulted (.policy name) before _ _ =>
    name.same (.text "heads") && before.host.events.length == 1
  | _ => false

/-- The host is asked for the policy of the heads after it has answered once. -/
theorem exists_asksForHeads : ∃ deeds before answer after rest,
    key.deeds (registrar.provision reformers.noting) registrar none vacant =
      deeds ++ .consulted (.policy (.text "heads")) before answer after :: rest ∧
    before.host.events.length = 1 := by
  have hany : (key.deeds (registrar.provision reformers.noting) registrar none vacant).any
      asksForHeads = true := by decide +kernel
  obtain ⟨d, hmem, hd⟩ := List.any_eq_true.1 hany
  obtain ⟨deeds, rest, hdeeds⟩ := List.append_of_mem hmem
  unfold asksForHeads at hd
  split at hd
  · next name before answer after =>
    obtain ⟨hname, hlength⟩ := Bool.and_eq_true_iff.1 hd
    obtain rfl := Value.text_eq_of_same hname
    exact ⟨deeds, before, answer, after, rest, hdeeds, eq_of_beq hlength⟩
  · cases hd

/-- The policy of the staff is dropped in the middle of a run, and it is the resolution that was under
way which keeps its compiled form. -/
theorem Call.forgets_midway_reform : ∃ x pending,
    Midst offices x (reform x) vacant afterKey pending ∧
      ∃ p ∈ pending, p.Keeps 0 blankModel.fingerprint (.text "staff") (.policy oldStaff) := by
  obtain ⟨deeds, x, answer, after, rest, hdeeds, hlength⟩ := exists_asksForHeads
  have hmidst : Midst offices x (reform x) vacant afterKey [key.pending reformers registrar none
      vacant deeds] := by
    refine .inside (.done _) (.inl rfl) (fun _ _ u => .done u) Recorded.reformers hdeeds ?_ (.done _)
    have hcall : reformers.call (vacant.opened none).1 (.policy (.text "heads")) x = reform x :=
      reformers_heads _ x
    exact .here (.done x) (hcall ▸ .done _)
  have huses : ∀ id, registrar.Uses id → id ∈ offices.caches := by
    rintro _ (rfl | rfl)
    · exact .inl rfl
    · exact .inr (.inl rfl)
  have hx : x.IsFounded offices := Request.isFounded_before
    ⟨fun _ _ _ => .refl, fun ctx name s => (Recorded.reformers ctx name s).runs.steps⟩
    isFresh_vacant.isFounded (hdeeds ▸ List.mem_append_right _ List.mem_cons_self)
  obtain ⟨later, new, hlater, -, hallows, -⟩ := Call.forgets_midway (c := .forgetPolicy (.text "staff"))
    isFresh_vacant .refl trivial huses (registry "") hmidst
  obtain ⟨a, expiresAt, hevents⟩ := events_afterKey
  obtain ⟨e, hfind, hvalue⟩ := find?_staff
  have hreform : (reform x).host.events.length = 2 := by
    rw [events_reform hx, List.length_cons, hlength]
  obtain rfl : later = _ := List.append_inj_left' (hlater.symm.trans hevents) hreform
  refine ⟨x, _, hmidst, ?_⟩
  rcases (hallows 0 (.inl rfl) _ e hfind).form (.text "staff") (.text "1") _ rfl ⟨rfl, rfl, rfl⟩ with
    hformed | hkeeps
  · exact absurd hformed not_isFormed_staff
  · exact hvalue ▸ hkeeps

end Gatehouse
