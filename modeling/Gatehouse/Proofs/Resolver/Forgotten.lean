import Gatehouse.Proofs.Resolver.Lasting

/-!
# A policy that was dropped is forgotten

When a resolver drops a policy, its compiled forms and the lists of the model are dropped (`Cut`), and
nothing in the caches and no answer goes back to them any more (`Cut.Heeded`, `Recorded.leads`).  Main
statements: where an answer comes from that is given after a policy was dropped
(`Resolver.invalidatePolicy_forgets`), and that others may still put in lists what they keep
themselves (`Resolver.invalidatePolicy_branch`).
-/

namespace Gatehouse

open Resolver (secretDigest)

variable {η : Type} {cast : Cast} {later : List Event} {receipts : List Receipt}
  {s t : Engine (Chronicle (Ledger η))}

/-- The point in a run at which a resolver dropped a policy. -/
structure Cut where
  /-- The resolver. -/
  resolver : Resolver
  /-- The name of the policy. -/
  name : Value
  /-- What had happened. -/
  events : List Event
  /-- The lists that had been answered with. -/
  receipts : List Receipt

namespace Cut

variable (cut : Cut)

/-- What may be kept under a key: compiled forms of the policy are made from what the host answered
with since then, and lists of the model from resolutions since then. -/
structure Allows (cast : Cast) (later : List Event) (receipts : List Receipt) (id : CacheId)
    (k : CacheKey) (v : Kept) : Prop where
  /-- Compiled forms. -/
  form : id = cut.resolver.policyCache → ∀ n version fingerprint,
    k = (CacheKey.ofPolicy n version (.text fingerprint)).normal → cut.name.IsName n →
      v.IsFormed cast later fingerprint n
  /-- Lists. -/
  list : id = cut.resolver.aclCache → ∀ digest,
    k = (CacheKey.ofAcl cut.resolver.model.fingerprint digest).normal →
      ∃ y ∈ receipts, y.IsSince cast cut.resolver cut.name cut.events later ∧ v = .acl y.acl ∧
        y.StandsFor cut.resolver digest

/-- **The policy is forgotten:** nothing in the caches and no answer since then goes back to what
the host had answered before. -/
structure Heeded (cast : Cast) (s : Engine (Chronicle (Ledger η))) : Prop where
  /-- Something stands behind all entries. -/
  founded : s.IsFounded cast
  /-- What had happened. -/
  events : cut.events <:+ s.host.events
  /-- The lists that had been answered with. -/
  receipts : cut.receipts <:+ s.receipts
  /-- What is kept. -/
  kept : ∀ id, id ∈ cast.caches → ∀ k e, (s.cache id).find? k = some e →
    cut.Allows cast (newer cut.events s.host.events) (newer cut.receipts s.receipts) id k
      e.value.value
  /-- What was answered. -/
  given : ∀ x ∈ newer cut.receipts s.receipts, x.resolver.SharesLists cut.resolver →
    ∃ y ∈ newer cut.receipts s.receipts, x.ComesFrom y ∧
      y.IsSince cast cut.resolver cut.name cut.events (newer cut.events s.host.events)

/-- What happens at once: a policy that is forgotten stays so, and the record goes on. -/
structure Leads (cast : Cast) (s t : Engine (Chronicle (Ledger η))) : Prop where
  /-- The policy stays forgotten. -/
  heeded : cut.Heeded cast s → cut.Heeded cast t
  /-- The record goes on. -/
  events : s.host.events <:+ t.host.events

end Cut

variable {cut : Cut}

namespace Cut

/-- What was dropped with a policy. -/
def purge (cut : Cut) : Purge η where
  forms id n := id = cut.resolver.policyCache ∧ cut.name.IsName n
  lists id fingerprint _ := id = cut.resolver.aclCache ∧ fingerprint = cut.resolver.model.fingerprint
  events := cut.events
  receipts := cut.receipts
  pending := []

/-- With nothing under way, renewed means formed from later answers. -/
theorem renewed_iff {id : CacheId} {fingerprint : Text} {n : Value} {v : Kept} :
    (cut.purge (η := η)).Renewed cast later id fingerprint n v ↔
      v.IsFormed cast later fingerprint n := by
  simp [Purge.Renewed, purge]

/-- With nothing under way, a list may be answered with exactly if it was made since the cut. -/
theorem admits_iff {y : Receipt} : (cut.purge (η := η)).Admits cast later y ↔
    y.IsSince cast cut.resolver cut.name cut.events later := by
  constructor
  · rintro (⟨p, hp, -⟩ | ⟨hbegan | ⟨p, hp, -⟩, hmade⟩)
    · cases hp
    · exact ⟨hbegan, hmade.imp fun _ _ hf hcache hn => renewed_iff.1 (hf ⟨hcache, hn⟩)⟩
    · cases hp
  · rintro ⟨hbegan, hmade⟩
    exact .renewed (.inl hbegan) (hmade.imp fun _ _ hf hn => renewed_iff.2 (hf hn.1 hn.2))

/-- With nothing under way, the two notions of what may be kept are one. -/
theorem allows_iff {id : CacheId} {k : CacheKey} {v : Kept} :
    (cut.purge (η := η)).Allows cast later receipts id k v ↔
      cut.Allows cast later receipts id k v := by
  constructor
  · refine fun h => ⟨fun hid n version fingerprint hk hn =>
      renewed_iff.1 (h.form n version fingerprint hk ⟨hid, hn⟩), fun hid digest hk => ?_⟩
    obtain ⟨y, hy, hadmits, hv, hlist⟩ := h.list _ digest hk ⟨hid, rfl⟩
    exact ⟨y, hy, admits_iff.1 hadmits, hv, ⟨hlist.model, hlist.cache.trans hid⟩, hlist.secret⟩
  · refine fun h => ⟨fun n version fingerprint hk hn =>
      renewed_iff.2 (h.form hn.1 n version fingerprint hk hn.2), ?_⟩
    rintro _ digest hk ⟨hid, rfl⟩
    obtain ⟨y, hy, hsince, hv, hstands⟩ := h.list hid digest hk
    exact ⟨y, hy, admits_iff.2 hsince, hv, hstands.lists.cache.trans hid.symm, hstands.lists.model,
      hstands.secret⟩

/-- With nothing under way, the two notions of what could have been found are one. -/
theorem covers_iff {x : Receipt} :
    (cut.purge (η := η)).Covers x ↔ x.resolver.SharesLists cut.resolver := by
  constructor
  · rintro ⟨_, ⟨hcache, hmodel⟩, -⟩
    exact ⟨hmodel, hcache⟩
  · rintro ⟨hmodel, hcache⟩
    by_cases hx : ∃ z, x.request = .secret (.text z)
    · obtain ⟨z, hz⟩ := hx
      refine ⟨secretDigest z, ⟨hcache, hmodel⟩, fun z' hz' => ?_⟩
      cases hz.symm.trans hz'
      rfl
    · exact ⟨"", ⟨hcache, hmodel⟩, fun z hz => absurd ⟨z, hz⟩ hx⟩

/-- **Forgetting a policy** is forgetting what was dropped with it. -/
theorem heeded_iff : cut.purge.Heeded cast s ↔ cut.Heeded cast s := by
  constructor
  · refine fun h => ⟨h.founded, h.events, h.receipts, fun id hid k e he =>
      allows_iff.1 (h.kept id hid k e he), fun x hx hshares => ?_⟩
    obtain ⟨y, hy, hcomes, hadmits⟩ := h.given x hx (covers_iff.2 hshares)
    exact ⟨y, hy, hcomes, admits_iff.1 hadmits⟩
  · refine fun h => ⟨h.founded, h.events, h.receipts, fun id hid k e he =>
      allows_iff.2 (h.kept id hid k e he), fun x hx hcovers => ?_⟩
    obtain ⟨y, hy, hcomes, hsince⟩ := h.given x hx (covers_iff.1 hcovers)
    exact ⟨y, hy, hcomes, admits_iff.2 hsince⟩

end Cut

/-- **A recorded run leaves a policy forgotten.** -/
theorem Recorded.leads (hpolicies : cut.resolver.policyCache ∈ cast.caches)
    (hlists : cut.resolver.aclCache ∈ cast.caches)
    (hrun : Recorded cast s t) : cut.Leads cast s t := by
  have hwithin : cut.purge.IsWithin (η := η) cast :=
    ⟨fun _ _ h => h.1 ▸ hpolicies, fun _ _ _ h => h.1 ▸ hlists⟩
  have hleads := hrun.leads_purge hwithin
  exact ⟨fun hs => Cut.heeded_iff.1 (hleads.heeded (Cut.heeded_iff.2 hs)), hleads.events⟩

/-- **Dropping a policy forgets it.**  At every point of a run, exactly the compiled forms of the
policy and exactly the lists of the model are dropped and counted.  From there on, every list that
is answered with for the model and the cache of lists comes from a resolution that began later; if a
resolver with the same cache of compiled policies has resolved it, then what it includes of the
policy was compiled from what the host answered with later. -/
theorem Resolver.invalidatePolicy_forgets {start s : Engine (Chronicle (Ledger η))} {r : Resolver}
    (hstart : start.IsFresh cast) (hrun : Runs cast start s) (hr : r ∈ cast.members)
    (hpolicies : r.policyCache ∈ cast.caches) (hlists : r.aclCache ∈ cast.caches)
    (h : Host (Chronicle (Ledger η))) (name : Value) : ∃ forms lists u,
      invalidatePolicy (r.provision h) r name s = (.ok (forms.length + lists.length), u) ∧
      s.Drops r name forms lists u ∧
      ∀ t, Recorded cast (u.note (.forgotPolicy r name)) t →
        ∃ later new, t.host.events = later ++ .forgotPolicy r name :: s.host.events ∧
          t.receipts = new ++ s.receipts ∧ ∀ x ∈ new, x.resolver.SharesLists r →
            ∃ y ∈ new, x.ComesFrom y ∧
              y.IsSince cast r name (.forgotPolicy r name :: s.host.events) later := by
  have hfounded := hrun.isFounded hstart
  obtain ⟨forms, lists, u, hresult, hdrops⟩ :=
    invalidatePolicy_spec hfounded hpolicies hlists h name
  refine ⟨forms, lists, u, hresult, hdrops, fun t hrun' => ?_⟩
  have hhost : u.host = s.host := by
    rw [← host_invalidatePolicy (r.provision h) r name s, hresult]
  have hexec : (Call.forgetPolicy name).exec h r s = u.note (.forgotPolicy r name) := by
    have hresult' : invalidatePolicy (r.provision h.noting) r name s = _ := hresult
    rw [Call.exec, hresult']
  let cut : Cut := ⟨r, name, .forgotPolicy r name :: s.host.events, s.receipts⟩
  have hevents : (u.note (.forgotPolicy r name)).host.events = cut.events := by
    rw [Engine.events_note, hhost]
  have hreceipts : (u.note (.forgotPolicy r name)).receipts = cut.receipts :=
    congrArg (·.host.receipts) hhost
  have hu : cut.Heeded cast (u.note (.forgotPolicy r name)) := by
    refine ⟨hexec ▸ (Step.forgetPolicy hr h name s).isFounded hfounded, hevents ▸ List.suffix_rfl,
      hreceipts ▸ List.suffix_rfl, fun id hid k e he => ⟨?_, ?_⟩, fun x hx => ?_⟩
    · rintro rfl n version fingerprint rfl hn
      exact absurd ⟨n, version, _, rfl, hn⟩ (hdrops.not_isFormOf he)
    · rintro rfl digest rfl
      exact absurd ⟨digest, rfl⟩ (hdrops.not_isListOf he)
    · rw [hreceipts, newer_self] at hx
      cases hx
  have hleads : cut.Leads cast _ t := hrun'.leads hpolicies hlists
  have ht := hleads.heeded hu
  exact ⟨newer cut.events t.host.events, newer cut.receipts t.receipts,
    (newer_append_self ht.events).symm, (newer_append_self ht.receipts).symm, ht.given⟩

/-! ### An example -/

/-- The model without resources. -/
def blankModel : ValidModel :=
  ⟨.empty, ∅, "44136fa355b3678a1146ad16f7e8649e94fb4fc21fe77e8310c060f61caaff8a"⟩

/-- The blank model is validated. -/
theorem isValidated_blankModel : blankModel.IsValidated := by
  have htext : Registry.definitionText .empty = "\x7b\x7d" := by decide +kernel
  have hdigest : Registry.fingerprint .empty = blankModel.fingerprint := by
    rw [Registry.fingerprint, htext]
    decide +kernel
  have hvalidate : (Model.draft .empty).validate =
      .ok ⟨.empty, ∅, Registry.fingerprint .empty⟩ := rfl
  exact hvalidate.trans (by rw [hdigest]; rfl)

/-- A registrar, who keeps compiled policies in one cache and lists in another. -/
def registrar : Resolver := ⟨blankModel, 0, 1, none, none⟩

/-- A branch office, which keeps lists where the registrar does, but not its compiled policies. -/
def branch : Resolver := ⟨blankModel, 2, 1, none, none⟩

/-- The registrar and the branch office. -/
def offices : Cast := ⟨{registrar, branch}, {0, 1, 2}⟩

/-- A registry in which every secret is bound to the staff, and every policy has the same version.
-/
def registry (name : Text) : Host (Chronicle (Ledger Unit)) where
  token _ _ s := (.ok (.token ⟨["staff"], none, ""⟩), s)
  policy _ _ s := (.ok (.policy ⟨name, [], .text "1"⟩), s)

/-- Before anything was asked, the caches are empty. -/
def vacant : Engine (Chronicle (Ledger Unit)) :=
  (((Engine.start ⟨⟨(), []⟩, 0, []⟩).setCache 0 (.memory (.create none 8))).setCache 1
    (.memory (.create none 8))).setCache 2 (.memory (.create none 8))

/-- A resolver has compiled the policy of the staff. -/
def afterStaff (r : Resolver) : Engine (Chronicle (Ledger Unit)) :=
  (Call.policies (.list [.text "staff"]) none).recorded (registry "old") r vacant

/-- The registrar has dropped the policy of the staff then. -/
def afterReform (r : Resolver) : Engine (Chronicle (Ledger Unit)) :=
  (Resolver.invalidatePolicy (registrar.provision (registry "new")) registrar (.text "staff")
    (afterStaff r)).2.note (.forgotPolicy registrar (.text "staff"))

/-- The caches of the offices are empty in the beginning. -/
theorem isFresh_vacant : vacant.IsFresh offices :=
  ⟨by rintro _ (rfl | rfl | rfl) <;> exact trivial, by rintro _ (rfl | rfl | rfl) k <;> rfl⟩

/-- The registry only answers. -/
theorem Recorded.registry {s t : Engine (Chronicle (Ledger Unit))} {r : Resolver}
    (hrun : Recorded offices s t) (hr : r ∈ offices.members) (name : Text) (c : Call) :
    Recorded offices s (c.recorded (registry name) r t) :=
  .call hrun hr (fun _ _ u => .done u) (fun _ _ u => .done u) c

/-- The one compiled form of the staff is dropped, and the list of the next secret is new. -/
theorem Resolver.invalidatePolicy_registrar :
    (invalidatePolicy (registrar.provision (Gatehouse.registry "new")) registrar (.text "staff")
      (afterStaff registrar)).1 = .ok 1 ∧
    ∃ x later, ((Call.secret (.text "key") none).recorded (Gatehouse.registry "new") registrar
        (afterReform registrar)).receipts = x :: (afterStaff registrar).receipts ∧
      x.IsSince offices registrar (.text "staff")
        (.forgotPolicy registrar (.text "staff") :: (afterStaff registrar).host.events) later := by
  have hr : registrar ∈ offices.members := .inl rfl
  obtain ⟨forms, lists, u, hresult, -, hlater⟩ := invalidatePolicy_forgets isFresh_vacant
    (Recorded.runs (.registry (.done vacant) hr "old" (.policies (.list [.text "staff"]) none))) hr
    (.inl rfl) (.inr (.inl rfl)) (Gatehouse.registry "new") (.text "staff")
  obtain rfl : _ = u := congrArg Prod.snd hresult
  obtain ⟨later, new, -, hnew, hsince⟩ :=
    hlater _ (.registry (.done _) hr "new" (.secret (.text "key") none))
  obtain ⟨x, hx, hmine⟩ : ∃ x, ((Call.secret (.text "key") none).recorded
      (Gatehouse.registry "new") registrar (afterReform registrar)).receipts =
        [x] ++ (afterStaff registrar).receipts ∧ x.resolver = registrar := ⟨_, rfl, rfl⟩
  obtain rfl : new = [x] := List.append_cancel_right (hnew.symm.trans hx)
  obtain ⟨y, hy, -, hy'⟩ := hsince x List.mem_cons_self (hmine ▸ ⟨rfl, rfl⟩)
  obtain rfl := List.mem_singleton.1 hy
  exact ⟨rfl, y, later, hx, hy'⟩

/-- The branch office has resolved a secret then. -/
def afterBranch : Engine (Chronicle (Ledger Unit)) :=
  (Call.secret (.text "key") none).recorded (registry "new") branch (afterReform branch)

/-- The registrar has resolved the same secret. -/
def afterRegistrar : Engine (Chronicle (Ledger Unit)) :=
  (Call.secret (.text "key") none).recorded (registry "new") registrar afterBranch

/-- **What others keep is not forgotten.**  The branch office still has the policy of the staff as
it was, and puts a list that is merged from it where the registrar finds it: after he has dropped
the policy, he answers with a list which includes it as it was. -/
theorem Resolver.invalidatePolicy_branch :
    blankModel.IsValidated ∧ vacant.IsFresh offices ∧ Recorded offices vacant (afterStaff branch) ∧
    Recorded offices (afterReform branch) afterRegistrar ∧
    ∃ x new later, afterRegistrar.receipts = new ++ (afterStaff branch).receipts ∧
      afterRegistrar.host.events = later ++ (afterReform branch).host.events ∧
      x ∈ new ∧ x.resolver = registrar ∧ ∀ y ∈ new, x.ComesFrom y →
        ¬ y.IsMadeOf fun n k => (Value.text "staff").IsName n →
          k.IsFormed offices later registrar.model.fingerprint n := by
  have hregistrar : registrar ∈ offices.members := .inl rfl
  have hbranch : branch ∈ offices.members := .inr rfl
  have hrun : Recorded offices vacant (afterStaff branch) := .registry (.done _) hbranch "old" _
  have hrun' : Recorded offices (afterReform branch) afterRegistrar :=
    .registry (.registry (.done _) hbranch "new" _) hregistrar "new" _
  let old : AnyCompiled := .strict ⟨"old", blankModel.fingerprint, ∅⟩
  let a : AnyAcl := .strict ⟨∅, ["old"], some blankModel.fingerprint⟩
  let y : Receipt := ⟨branch, .secret (.text "key"), (afterReform branch).host.events,
    .forms [.text "staff"] [.cached (.policy old)], a⟩
  have hfirst : afterBranch.receipts = [y] ++ (afterStaff branch).receipts := rfl
  -- the registrar finds the list of the branch office
  let key := CacheKey.ofAcl blankModel.fingerprint (secretDigest "key")
  obtain ⟨e, hfind, hvalue, hexpiry⟩ : ∃ e, (afterBranch.cache 1).find? key.normal = some e ∧
      e.value = ⟨key, key, .acl a⟩ ∧ e.expiresAt = none :=
    Cache.exists_find?_put (CacheKey.unfit?_ofAcl _ _) _ none
  have hplain : (afterBranch.cache registrar.aclCache).IsPlain := trivial
  let x : Receipt := ⟨registrar, .secret (.text "key"), afterBranch.host.events, .kept (.acl a), a⟩
  obtain ⟨hevents, hsecond⟩ : afterRegistrar.host.events = afterBranch.host.events ∧
      afterRegistrar.receipts = x :: afterBranch.receipts :=
    Call.recorded_of_find? hplain (by decide) hfind (by rw [CacheEntry.isExpired, hexpiry])
      (by rw [hvalue]) rfl
  refine ⟨isValidated_blankModel, isFresh_vacant, hrun, hrun', x, [x, y],
    [.listed branch "key" a none, .answered (.text "staff") (.ofPolicy ⟨"new", [], .text "1"⟩)],
    hsecond.trans (congrArg (x :: ·) hfirst), hevents, List.mem_cons_self, rfl, ?_⟩
  rintro y' hy' - ⟨names, l, hforms, -, hall⟩
  simp only [List.mem_cons, List.not_mem_nil, or_false] at hy'
  rcases hy' with rfl | rfl
  · cases hforms
  · cases hforms
    obtain ⟨hform, -⟩ := List.forall₂_cons.1 hall
    obtain ⟨r, hr, n, o, c, -, -, hanswered, hcompile, hc⟩ := hform ⟨rfl, rfl⟩
    obtain rfl : old = c := Kept.policy.inj hc
    have ho : o = .ofPolicy ⟨"new", [], .text "1"⟩ := by
      simp only [List.mem_cons, List.not_mem_nil, or_false, reduceCtorEq, false_or,
        Event.answered.injEq] at hanswered
      exact hanswered.2
    have hnew : o.compile r.model = .ok (.strict ⟨"new", blankModel.fingerprint, ∅⟩) := by
      rcases hr with rfl | rfl <;> rw [ho] <;> rfl
    have hsame : old = .strict ⟨"new", blankModel.fingerprint, ∅⟩ :=
      Except.ok.inj (hcompile.symm.trans hnew)
    exact absurd hsame (by decide)

end Gatehouse
