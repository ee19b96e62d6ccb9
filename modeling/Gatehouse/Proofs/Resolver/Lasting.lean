import Gatehouse.Proofs.Resolver.Underway

/-!
# What was dropped stays forgotten

An answer is put together from what it is made of, stored and entered; if what it is made of goes
back to nothing that the host had answered before, then what was dropped stays forgotten
(`Purge.Heeded.of_finish`).  Main statements: so it does after a resolution in which it was dropped,
but for what that had obtained before (`Purge.Heeded.of_pending`), after every other resolution
(`Purge.Heeded.of_resolve`), and hence throughout every run (`Recorded.leads_purge`).
-/

namespace Gatehouse

open Relation (ReflTransGen)
open Resolver (secretDigest)

variable {η : Type} {cast : Cast} {later later' : List Event} {receipts receipts' : List Receipt}
  {purge purge' : Purge η} {mark : List (Deed (Chronicle (Ledger η)))} {r : Resolver}
  {ctx : ContextId} {h : Host (Chronicle (Ledger η))} {s t u : Engine (Chronicle (Ledger η))}

/-! ### Putting an answer together -/

namespace Purge

/-- A list that may be answered with may be stored. -/
theorem Admits.allows_list {q : Request} {began : List Event} {src : Source} {a : AnyAcl}
    {x : Text} (h : purge.Admits cast later ⟨r, q, began, src, a⟩) (hq : q = .secret (.text x))
    (hmem : ⟨r, q, began, src, a⟩ ∈ receipts) : purge.Allows cast later receipts r.aclCache
      (CacheKey.ofAcl r.model.fingerprint (secretDigest x)).normal (.acl a) := by
  refine ⟨fun n version fingerprint hk _ =>
    absurd hk.symm (CacheKey.normal_ofPolicy_ne_ofAcl _ _ _ _ _), fun fingerprint digest hk _ => ?_⟩
  obtain ⟨hfingerprint, hdigest⟩ := CacheKey.normal_ofAcl_eq_iff.1 hk
  exact ⟨_, hmem, h, rfl, rfl, Value.text.inj (Value.text_eq_of_same hfingerprint), x, hq, hdigest⟩

/-- **What is stored of an answer may be stored.** -/
theorem Bears.allows_of_finish {q : Request} {src : Source} {g : List Write × Kept}
    {began : List Event} {id : CacheId} {k : CacheKey} {e : CacheEntry Deposit}
    (hbears : purge.Bears cast r q began later receipts src)
    (hfinish : q.finish (r.provision h.noting) r ctx src u = (.ok g, u)) (hlater : later ⊆ later')
    (hentered : ∀ a, g.2 = .acl a → q.IsForList → (Engine.storeEach g.1 u).1 = .ok () →
      ⟨r, q, began, src, a⟩ ∈ receipts') (hplain : (u.cache id).IsPlain)
    (he : ((Engine.storeEach g.1 u).2.cache id).find? k = some e) :
    purge.Allows cast later' receipts' id k e.value.value ∨ (u.cache id).find? k = some e := by
  have hstores : ∀ l : List Resolver.Fetched, (∀ f ∈ l, purge.AllowsFresh cast r later f) →
      (∃ st ∈ Resolver.Fetched.stores r l, st.Left id k e) →
        purge.Allows cast later' receipts' id k e.value.value := by
    rintro l hl ⟨st, hst, rfl, rfl, hvalue⟩
    obtain ⟨key, c, hmem, rfl⟩ := Resolver.Fetched.mem_stores_iff.1 hst
    rw [hvalue]
    exact (hl _ hmem key c rfl).mono hlater (List.nil_subset _)
  cases src with
  | kept kept =>
    obtain rfl : ([], kept) = g := Except.ok.inj (congrArg Prod.fst hfinish)
    exact .inr he
  | form n f =>
    obtain ⟨⟨⟩, v, -, hend⟩ := Action.bind_eq_ok_iff.1 hfinish
    obtain rfl := Except.ok.inj (congrArg Prod.fst hend)
    refine ((Engine.storeEach_left hplain _).2 k e he).imp_left (hstores [f] ?_)
    exact List.forall_mem_singleton.2 hbears.2
  | forms names l =>
    obtain ⟨a, hmerge, rfl⟩ := Request.eq_of_finish_forms hfinish
    obtain ⟨hq, hfresh, hadmits⟩ := hbears
    rcases Request.listWrites_cases (r.provision h.noting) r q a with hnone | ⟨x, hx, hlist⟩
    · simp only [hnone, List.append_nil] at he
      exact ((Engine.storeEach_left hplain _).2 k e he).imp_left (hstores l hfresh)
    simp only [hlist] at he hentered
    rcases Engine.storeEach_concat_left hplain (CacheKey.unfit?_ofAcl _ _) he with
      hold | ⟨hok, hmine⟩
    · exact hold.imp_left (hstores l hfresh)
    -- the list is stored, so the resolution has answered with it
    obtain ⟨rfl, rfl, hvalue⟩ := hmine
    rw [hvalue]
    exact .inl (((hadmits a hmerge).mono hlater).allows_list hx (hentered a rfl hq hok))

/-- **A list that is answered with may be answered with.** -/
theorem Bears.comesFrom_of_finish {q : Request} (hq : q.IsForList) {src : Source}
    {g : List Write × Kept} {began : List Event} {a : AnyAcl}
    (hbears : purge.Bears cast r q began later receipts src)
    (hfinish : q.finish (r.provision h.noting) r ctx src u = (.ok g, u)) (ha : g.2 = .acl a)
    (hlater : later ⊆ later') (hcovers : purge.Covers ⟨r, q, began, src, a⟩) :
    ∃ y, (y = ⟨r, q, began, src, a⟩ ∨ y ∈ receipts) ∧
      (⟨r, q, began, src, a⟩ : Receipt).ComesFrom y ∧ purge.Admits cast later' y := by
  cases src with
  | kept kept =>
    obtain rfl : ([], kept) = g := Except.ok.inj (congrArg Prod.fst hfinish)
    obtain ⟨z, rfl, hkept⟩ := hbears
    obtain ⟨digest, hlists, hdigest⟩ := hcovers
    obtain rfl := hdigest z rfl
    obtain ⟨y, hy, hadmits, hvalue, hlist⟩ := hkept hlists
    refine ⟨y, .inr hy, ⟨?_, .inr ⟨z, rfl, ⟨hlist.model, hlist.cache⟩, hlist.secret⟩⟩,
      hadmits.mono hlater⟩
    exact Kept.acl.inj (ha.symm.trans hvalue)
  | form n f => exact absurd hbears.1 (hq n)
  | forms names l =>
    obtain ⟨b, hmerge, rfl⟩ := Request.eq_of_finish_forms hfinish
    obtain rfl := Kept.acl.inj ha
    exact ⟨_, .inl rfl, ⟨rfl, .inl rfl⟩, (hbears.2.2 _ hmerge).mono hlater⟩

/-- **An answer that is put together leaves forgotten what was dropped,** once it is stored and
entered. -/
theorem Heeded.of_finish (hu : purge.Heeded cast u) {q : Request} {src : Source}
    {g : List Write × Kept} {began : List Event}
    (hbears : purge.Bears cast r q began (newer purge.events u.host.events)
      (newer purge.receipts u.receipts) src)
    (hfinish : q.finish (r.provision h.noting) r ctx src u = (.ok g, u)) {new : List Receipt}
    (ht : (Engine.storeEach g.1 u).2.Enters cast new t)
    (hentered : ∀ a, g.2 = .acl a → q.IsForList → (Engine.storeEach g.1 u).1 = .ok () →
      ⟨r, q, began, src, a⟩ ∈ new)
    (hanswer : ∀ x ∈ new, q.IsForList ∧ ∃ a, g.2 = .acl a ∧ x = ⟨r, q, began, src, a⟩) :
    purge.Heeded cast t := by
  have hhost : (Engine.storeEach g.1 u).2.host = u.host := Engine.host_storeEach g.1 u
  have hevents : u.host.events <:+ t.host.events := hhost ▸ ht.events
  have hreceipts : t.receipts = new ++ u.receipts :=
    ht.receipts.trans (congrArg (new ++ ·.host.receipts) hhost)
  have hlater := newer_subset purge.events hevents
  have hnewer : newer purge.receipts t.receipts = new ++ newer purge.receipts u.receipts := by
    rw [hreceipts, newer_append hu.receipts.length_le]
  refine hu.goes_on ht.founded hevents hreceipts (fun id hid k e he => ?_) fun x hx hcovers => ?_
  · rw [ht.caches] at he
    refine (hbears.allows_of_finish hfinish hlater (fun a ha hq hok => ?_)
      (hu.founded.plain id hid) he).imp_right fun hold => ⟨e, hold, rfl⟩
    exact hnewer ▸ List.mem_append_left _ (hentered a ha hq hok)
  · obtain ⟨hq, a, ha, rfl⟩ := hanswer x hx
    obtain ⟨y, hy, hcomes, hadmits⟩ :=
      hbears.comesFrom_of_finish hq hfinish ha hlater hcovers
    refine ⟨y, ?_, hcomes, hadmits⟩
    rw [hnewer]
    rcases hy with rfl | hy
    · exact List.mem_append_left _ hx
    · exact List.mem_append_right _ hy

end Purge

/-! ### Resolutions -/

/-- Finding out with a diary what an answer is made of. -/
theorem Action.Details.source {η : Type} (w : Provision η) (r : Resolver) (ctx : ContextId)
    (q : Request) : (q.source w.diary r ctx).Details (q.source w r ctx) :=
  (congruence w ctx).source q

/-- All deeds of a resolution are done while it gathers. -/
theorem Request.deeds_eq_gather {η : Type} (w : Provision η) (r : Resolver) (c : Option ContextId)
    (q : Request) (s : Engine η) : q.deeds w r c s =
      (q.gather w.diary r (s.opened c).1 ((s.opened c).2.withDiary [])).2.host.deeds.reverse := by
  obtain ⟨o, t, hrun, -, hdeeds⟩ := q.resolve_eq_diary w r c s
  have hhost := Action.host_thenStore (q.gather w.diary r (s.opened c).1)
    ((s.opened c).2.withDiary [])
  rw [hrun] at hhost
  rw [hdeeds, hhost]

/-- They are done when it is found out what its answer is made of. -/
theorem Request.deeds_eq_source {η : Type} (w : Provision η) (r : Resolver) (c : Option ContextId)
    (q : Request) (s : Engine η) : q.deeds w r c s =
      (q.source w.diary r (s.opened c).1 ((s.opened c).2.withDiary [])).2.host.deeds.reverse := by
  rw [deeds_eq_gather, gather_eq, Action.host_bind_left fun src u => by rw [snd_finish]]

/-- What is forgotten from a mark on stays so through a run. -/
theorem Purge.HeededSince.of_leads {s t : Engine (Diary (Chronicle (Ledger η)))}
    (hs : purge.HeededSince cast mark s)
    (hsteps : ReflTransGen (purge.LeadsSince cast mark) s t) : purge.HeededSince cast mark t := by
  induction hsteps with
  | refl => exact hs
  | tail _ hstep ih => exact hstep.heeded ih

/-- **What comes of a resolution when it has found out what its answer is made of:** it fails, or the
answer is put together. -/
theorem Request.gather_cases {η : Type} {w : Provision η} {r : Resolver} {ctx : ContextId}
    {q : Request} {s u : Engine η} {result : Except Failure Source}
    (hsource : q.source w r ctx s = (result, u)) :
    (∃ e, q.gather w r ctx s = (.error e, u)) ∨
      ∃ src g, result = .ok src ∧ q.finish w r ctx src u = (.ok g, u) ∧
        q.gather w r ctx s = (.ok g, u) := by
  rw [gather_eq]
  rcases result with e | src
  · exact .inl ⟨e, Action.bind_of_error hsource⟩
  rw [Action.bind_of_ok hsource]
  have hstate := snd_finish w r ctx q src u
  rcases hfinish : q.finish w r ctx src u with ⟨e | g, v⟩ <;> rw [hfinish] at hstate <;>
    obtain rfl : v = u := hstate
  · exact .inl ⟨e, rfl⟩
  · exact .inr ⟨src, g, rfl, hfinish, rfl⟩

section Answered

variable {q : Request} {c : Option ContextId}

/-- A resolution that fails while it gathers answers with nothing. -/
theorem Request.receipts_of_gather_error {e : Failure}
    (hgather : q.gather (r.provision h.noting) r (s.opened c).1 (s.opened c).2 = (.error e, u)) :
    q.receipts h r c s = [] := by
  refine List.eq_nil_iff_forall_not_mem.2 fun x hx => ?_
  obtain ⟨-, -, a, -, -, hok⟩ := mem_receipts hx
  rw [resolve_of_gather_error hgather] at hok
  cases hok

variable {src : Source} {g : List Write × Kept}
  (hsource : (q.source (r.provision h.noting) r (s.opened c).1 (s.opened c).2).1 = .ok src)
  (hgather : q.gather (r.provision h.noting) r (s.opened c).1 (s.opened c).2 = (.ok g, u))
include hsource hgather

/-- A list that was gathered is answered with, once it is stored. -/
theorem Request.mem_receipts_of_gather {a : AnyAcl} (ha : g.2 = .acl a) (hq : q.IsForList)
    (hok : (Engine.storeEach g.1 u).1 = .ok ()) :
    ⟨r, q, s.host.events, src, a⟩ ∈ q.receipts h r c s := by
  have hanswered : (q.resolve (r.provision h.noting) r c s).1 = .ok (.acl a) := by
    rw [resolve_of_gather hgather, hok, ← ha]
    rfl
  obtain ⟨src', hsrc, hreceipt⟩ := exists_receipt hq hanswered
  obtain rfl := Except.ok.inj (hsource.symm.trans hsrc)
  exact hreceipt ▸ List.mem_singleton_self _

/-- What is answered with is the list that was gathered. -/
theorem Request.eq_of_mem_receipts {x : Receipt} (hx : x ∈ q.receipts h r c s) :
    q.IsForList ∧ ∃ a, g.2 = .acl a ∧ x = ⟨r, q, s.host.events, src, a⟩ := by
  obtain ⟨hq, src', a, rfl, hsrc, hok⟩ := mem_receipts hx
  obtain rfl := Except.ok.inj (hsource.symm.trans hsrc)
  refine ⟨hq, a, ?_, rfl⟩
  rw [resolve_of_gather hgather] at hok
  rcases hstore : (Engine.storeEach g.1 u).1 with p | ⟨⟩ <;> rw [hstore] at hok
  · cases hok
  · exact Except.ok.inj hok

end Answered

/-- **A resolution leaves forgotten what was dropped,** if what its answer is made of may be stored
and answered with. -/
theorem Purge.HeededSince.of_source {q : Request} {c : Option ContextId}
    (hh : h.Continues cast purge (s.opened c).1 mark) (hpurge : purge.IsWithin cast)
    (hr : r ∈ cast.members)
    (hopen : purge.HeededSince cast mark ((s.opened c).2.withDiary []))
    (hmark : mark <:+ (q.deeds (r.provision h.noting) r c s).reverse)
    (hweaken : ∀ u, purge.Heeded cast u → purge'.Heeded cast u)
    (hbears : ∀ src g v, q.finish (r.provision h.noting) r (s.opened c).1 src v.plain =
        (.ok g, v.plain) →
      q.gather (r.provision h.noting) r (s.opened c).1 (s.opened c).2 = (.ok g, v.plain) →
      mark <:+ v.host.deeds → purge.Backs cast mark r q v src →
        purge'.Bears cast r q s.host.events (newer purge'.events v.plain.host.events)
          (newer purge'.receipts v.plain.receipts) src)
    (ht : (q.resolve (r.provision h.noting) r c s).2.Enters cast (q.receipts h r c s) t) :
    purge'.Heeded cast t := by
  rw [Request.deeds_eq_source, List.reverse_reverse] at hmark
  have hsource := Action.Details.source (r.provision h.noting) r (s.opened c).1 q
    ((s.opened c).2.withDiary [])
  rcases hdiary : q.source (r.provision h.noting).diary r (s.opened c).1
    ((s.opened c).2.withDiary []) with ⟨result, v⟩
  obtain ⟨hsteps, hresult⟩ := (Resolver.meets_source_since hh hpurge hr q).of_eq hopen hdiary
  rw [hdiary, Engine.plain_withDiary] at hsource
  rw [hdiary] at hmark
  have hv : purge.Heeded cast v.plain := hopen.of_leads hsteps hmark
  rcases Request.gather_cases hsource with ⟨e, hgather⟩ | ⟨src, g, rfl, hfinish, hgather⟩
  · -- a resolution that does not come to an answer stores nothing
    rw [Request.resolve_of_gather_error hgather, Request.receipts_of_gather_error hgather] at ht
    exact (hweaken _ hv).of_enters ⟨ht.founded, ht.caches, ht.events, ht.receipts⟩
  · have hbacks := (hresult src rfl).2
    have hsrc := congrArg Prod.fst hsource
    rw [Request.resolve_of_gather hgather] at ht
    exact (hweaken _ hv).of_finish (hbears src g v hfinish hgather hmark hbacks) hfinish
      ⟨ht.founded, ht.caches, ht.events, ht.receipts⟩
      (fun _ ha hq hok => Request.mem_receipts_of_gather hsrc hgather ha hq hok)
      fun _ hx => Request.eq_of_mem_receipts hsrc hgather hx

/-- A resolution that was under way after some deeds, and what it gathers in the end. -/
def Request.pending (h : Host (Chronicle (Ledger η))) (r : Resolver) (c : Option ContextId)
    (q : Request) (s : Engine (Chronicle (Ledger η)))
    (deeds : List (Deed (Chronicle (Ledger η)))) : Pending η :=
  ⟨r, q, s.host.events, deeds,
    (q.gather (r.provision h.noting) r (s.opened c).1 (s.opened c).2).1.map Prod.snd⟩

/-- The call by which a resolver is asked. -/
def Request.call (c : Option ContextId) : Request → Call
  | secret v => .secret v c
  | policies names => .policies names c
  | policy name => .policy name c

/-- What a request does to the engine, and that its answer is entered. -/
theorem Request.enters_recorded {q : Request} {c : Option ContextId}
    (hfounded : ((q.call c).recorded h r s).IsFounded cast) :
    (q.resolve (r.provision h.noting) r c s).2.Enters cast (q.receipts h r c s)
      ((q.call c).recorded h r s) := by
  cases q with
  | secret v =>
    refine ⟨hfounded, ?_, ?_, ?_⟩ <;>
      rcases Call.noteListed_cases r v s.host.asked
        (Resolver.resolveSecret (r.provision h.noting) r v c s) with hnote | ⟨e, hnote⟩ <;>
      simp only [call, Call.recorded, Call.exec, Call.receipts, resolve, hnote,
        Engine.cache_enter, Engine.events_enter, Engine.receipts_enter, Engine.cache_note,
        Engine.events_note, Engine.receipts_note, implies_true]
    · exact List.suffix_rfl
    · exact List.suffix_cons _ _
  | policies names =>
    have hsnd : ((Request.policies names).resolve (r.provision h.noting) r c s).2 =
        (Resolver.resolvePolicies (r.provision h.noting) r names c s).2 := by
      rw [Request.resolve, Action.map_apply]
    exact hsnd ▸ ⟨hfounded, fun _ => rfl, List.suffix_rfl, rfl⟩
  | policy name => exact ⟨hfounded, fun _ => rfl, List.suffix_rfl, rfl⟩

/-- Something stands behind all entries after a call. -/
theorem Call.isFounded_recorded (hs : s.IsFounded cast) (hh : h.GoesBySteps cast)
    (hr : r ∈ cast.members) (c : Call) : (c.recorded h r s).IsFounded cast :=
  isFounded_of_steps (.tail (c.steps_exec hh hr s) (.other ⟨fun _ _ => .refl _, rfl, rfl⟩)) hs

section Calls

variable (hleads : ∀ ctx question u, purge.Leads cast u (h.call ctx question u))
  (hpurge : purge.IsWithin cast) (hr : r ∈ cast.members)
include hleads hpurge hr

namespace Purge.Heeded

/-- **A resolution leaves forgotten what was dropped before it began,** whatever comes of it, once its
answer is entered. -/
theorem of_resolve (hs : purge.Heeded cast s) (q : Request) (c : Option ContextId)
    (ht : (q.resolve (r.provision h.noting) r c s).2.Enters cast (q.receipts h r c s) t) :
    purge.Heeded cast t := by
  have hopen : purge.Heeded cast (s.opened c).2 :=
    hs.of_step (.of_eq (Engine.caches_opened c s) (Engine.host_opened c s))
      (congrArg (·.host.receipts) (Engine.host_opened c s)) fun id _ => by
        rw [Engine.cache_opened]
        exact .refl _
  have hh : h.Continues cast purge (s.opened c).1 [] :=
    ⟨hleads (s.opened c).1, nofun, fun _ _ _ heq => by cases heq⟩
  exact HeededSince.of_source hh hpurge hr (fun _ => hopen) List.nil_suffix (fun _ hu => hu)
    (fun _ _ _ _ _ _ hbacks => hbacks.bears hr hs.events) ht

/-- **A resolution leaves forgotten what was dropped while it was under way,** once its answer is
entered, but for what it had obtained. -/
theorem of_pending {q : Request} {c : Option ContextId}
    {deeds rest : List (Deed (Chronicle (Ledger η)))} {question : Question}
    {before after : Engine (Chronicle (Ledger η))} {answer : Except Problem Answer}
    (hdeeds : q.deeds (r.provision h.noting) r c s =
      deeds ++ .consulted question before answer after :: rest)
    (hdropped : purge.Heeded cast (h.call (s.opened c).1 question (question.asked before)))
    (ht : (q.resolve (r.provision h.noting) r c s).2.Enters cast (q.receipts h r c s) t) :
    (purge.during (q.pending h r c s deeds)).Heeded cast t := by
  have hh : h.Continues cast purge (s.opened c).1
      (.consulted question before answer after :: deeds.reverse) := by
    refine ⟨hleads (s.opened c).1, ?_, fun _ _ _ heq => by cases heq⟩
    rintro _ _ _ _ _ ⟨⟩
    exact hdropped
  have hmark : .consulted question before answer after :: deeds.reverse <:+
      (q.deeds (r.provision h.noting) r c s).reverse := by
    rw [hdeeds, List.reverse_append, List.reverse_cons, List.append_assoc, List.singleton_append]
    exact List.suffix_append _ _
  refine HeededSince.of_source hh hpurge hr (fun hnil => nomatch List.suffix_nil.1 hnil) hmark
    (fun _ hu => hu.during) ?_ ht
  intro src g v hfinish hgather hmark hbacks
  have hpending : q.pending h r c s deeds =
      ⟨r, q, s.host.events, deeds.reverse.reverse, .ok g.2⟩ := by
    rw [Request.pending, hgather, List.reverse_reverse]
    rfl
  rw [hpending]
  refine hbacks.bears_during hr hmark ?_
  rintro names l a rfl hmerge
  obtain ⟨b, hmerge', rfl⟩ := Request.eq_of_finish_forms hfinish
  rw [Except.ok.inj (hmerge.symm.trans hmerge')]

/-- **A call leaves forgotten what was dropped before,** once its answer is entered. -/
theorem recorded (hs : purge.Heeded cast s) (hh : h.GoesBySteps cast) (c : Call) :
    purge.Heeded cast (c.recorded h r s) := by
  have hfounded := c.isFounded_recorded hs.founded hh hr
  have hforgets : ∀ t, Step cast s t → s.Forgets cast t → purge.Heeded cast t := by
    intro t hstep hforgets
    obtain ⟨new, hhost, -⟩ := hforgets.host
    exact hs.of_step hstep (congrArg (·.host.receipts) hhost) hforgets.caches
  cases c with
  | secret v ctx =>
    exact hs.of_resolve hleads hpurge hr (.secret v) ctx (Request.enters_recorded hfounded)
  | policies names ctx =>
    exact hs.of_resolve hleads hpurge hr (.policies names) ctx (Request.enters_recorded hfounded)
  | policy name ctx =>
    exact hs.of_resolve hleads hpurge hr (.policy name) ctx (Request.enters_recorded hfounded)
  | forgetSecret v =>
    exact hforgets _ (.forgetSecret hr h v s) (Step.forgets_forgetSecret hs.founded h v)
  | forgetPolicy name =>
    exact hforgets _ (.forgetPolicy hr h name s) (Step.forgets_forgetPolicy hs.founded h name)
  | forgetAll => exact hforgets _ (.forgetAll hr h s) (Step.forgets_forgetAll hs.founded h)

end Purge.Heeded

end Calls

/-- **A recorded run leaves forgotten what was dropped.** -/
theorem Recorded.leads_purge (hpurge : purge.IsWithin cast) (hrun : Recorded cast s t) :
    purge.Leads cast s t := by
  refine ⟨fun hs => ?_, events_suffix_of_steps hrun.runs.steps⟩
  induction hrun with
  | done => exact hs
  | other _ hother hreceipts ih => exact (ih hs).of_step (.other hother) hreceipts hother.caches
  | call hbefore hr htoken hpolicy c ih ihtoken ihpolicy =>
    refine (ih hs).recorded (fun ctx question u => ?_) hpurge hr
      ⟨fun ctx secret u => (htoken ctx secret u).runs.steps,
        fun ctx name u => (hpolicy ctx name u).runs.steps⟩ c
    cases question with
    | token secret =>
      exact ⟨ihtoken ctx secret u, events_suffix_of_steps (htoken ctx secret u).runs.steps⟩
    | policy name =>
      exact ⟨ihpolicy ctx name u, events_suffix_of_steps (hpolicy ctx name u).runs.steps⟩

end Gatehouse
