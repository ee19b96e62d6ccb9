import Gatehouse.Proofs.Engine.Cancellation
import Gatehouse.Proofs.Resolver.Diary

/-!
# Cancelled resolutions give no answer

A resolution checks its context before and after every call of a collaborator.  So once its context
is cancelled, the call under way is the last one, and nothing comes of it.  What is shown of each part
is that it either never saw a cancelled context after a call or was halted by the first one
(`Action.Heeds`).  Main statement: a cancelled resolution does nothing more and fails, with the reason
of its context if the last call gave an answer (`Request.resolve_of_cancelled`).
-/

namespace Gatehouse

open Relation (ReflTransGen)

variable {η α β : Type} {id : ContextId}

/-- A deed after which a context is not cancelled. -/
def Deed.LeavesLive (id : ContextId) : Deed η → Prop
  | consulted _ _ _ after => ∀ reason, ¬ after.IsCancelled id reason
  | compiled _ _ => True

/-- No deed so far left a context cancelled. -/
def Engine.IsUncalled (id : ContextId) (s : Engine (Diary η)) : Prop :=
  ∀ d ∈ s.host.deeds, d.LeavesLive id

/-- **A failure right after the call that left a context cancelled:** this call was the last deed and
the first of its kind, and if it gave an answer, the failure carries the reason of the context. -/
inductive Halted (id : ContextId) : Except Failure α → Engine (Diary η) → Prop where
  /-- The last call left the context cancelled. -/
  | intro (question : Question) (before : Engine η) (answer : Except Problem Answer)
    (after : Engine η) {earlier : List (Deed η)} {reason : Value} {e : Failure}
    (cancelled : after.IsCancelled id reason) (live : ∀ d ∈ earlier, d.LeavesLive id)
    (reported : ∀ a, answer = .ok a → e = .ofFault (.cancelled reason)) :
    Halted id (.error e) (after.withDiary (.consulted question before answer after :: earlier))

namespace Action

/-- **An action heeds a context:** no call in it leaves the context cancelled, or the first one that
does halts it. -/
def Heeds (id : ContextId) (x : Action (Diary η) α) : Prop :=
  ∀ s, s.IsUncalled id → (x s).2.IsUncalled id ∨ Halted id (x s).1 (x s).2

namespace Heeds

open Resolver

variable {x : Action (Diary η) α} {f : α → Action (Diary η) β} {w : Provision η} {r : Resolver}

/-- Whoever takes nothing down heeds every context. -/
theorem of_deeds (h : ∀ s, (x s).2.host.deeds = s.host.deeds) : x.Heeds id := by
  intro s hs
  refine .inl ?_
  rw [Engine.IsUncalled, h]
  exact hs

/-- Giving an answer heeds every context. -/
theorem done (a : α) : (Action.done a : Action (Diary η) α).Heeds id := of_deeds fun _ => rfl

/-- Checking a context heeds every context. -/
theorem checkContext (ctx : ContextId) : (Engine.checkContext (η := Diary η) ctx).Heeds id :=
  of_deeds fun s => by rw [Engine.snd_checkContext]

/-- **A sequence heeds what its parts heed.** -/
theorem bind (hx : x.Heeds id) (hf : ∀ a, (f a).Heeds id) : (x >>= f).Heeds id := by
  intro s hs
  rcases h : x s with ⟨e | a, t⟩ <;> have hspec := hx s hs <;> rw [h] at hspec
  · rw [bind_of_error h]
    refine hspec.imp_right fun halted => ?_
    cases halted with
    | intro question before answer after cancelled live reported =>
      exact .intro question before answer after cancelled live reported
  · rw [bind_of_ok h]
    rcases hspec with hlive | halted
    · exact hf a t hlive
    · cases halted

/-- **Consulting a collaborator heeds the context:** it is checked afterwards. -/
theorem consult (lookup : Lookup η) (question : Value → Question) (fault : Value → Fault)
    (subject : Value) :
    (Resolver.consult (Lookup.noted lookup question) fault id subject).Heeds id := by
  intro s hs
  rw [consult_eq]
  rcases (Engine.checkContext id s).1 with e | ⟨⟨⟩⟩
  · exact .inl hs
  have hnoted : ∀ {o t}, lookup id subject s.plain = (o, t) →
      Lookup.noted lookup question id subject s =
        (o, t.withDiary (.consulted (question subject) s.plain o t :: s.host.deeds)) :=
    fun ho => by simp only [Lookup.noted, ho]
  rcases ho : lookup id subject s.plain with ⟨p | a, t⟩ <;> rw [hnoted ho] <;>
    by_cases hlive : ∀ reason, ¬ t.IsCancelled id reason
  · exact .inl (List.forall_mem_cons.2 ⟨hlive, hs⟩)
  · obtain ⟨reason, hcancelled⟩ := not_forall_not.1 hlive
    exact .inr (.intro _ _ _ _ hcancelled hs (by simp))
  · exact .inl (List.forall_mem_cons.2 ⟨hlive, hs⟩)
  · obtain ⟨reason, hcancelled⟩ := not_forall_not.1 hlive
    have hnoted : (t.withDiary (.consulted (question subject) s.plain (.ok a) t ::
        s.host.deeds)).IsCancelled id reason := hcancelled
    simp only [Engine.checkContext_of_isCancelled hnoted]
    exact .inr (.intro _ _ _ _ hcancelled hs fun _ _ => rfl)

/-- **Gathering heeds the context.** -/
theorem gather (q : Request) : (q.gather w.diary r id).Heeds id := by
  let C : ∀ {α : Type}, Action (Diary η) α → Action (Diary η) α → Prop := fun x _ => x.Heeds id
  have c : Request.Congruence C w.diary w.diary id :=
    { done := done
      fail := fun _ => of_deeds fun _ => rfl
      bind := bind
      checkContext := checkContext id
      cacheGet := fun _ _ => of_deeds fun _ => rfl
      token := fun _ _ => consult _ _ _ _
      policy := fun _ _ => consult _ _ _ _
      compile := fun _ _ hs => .inl (List.forall_mem_cons.2 ⟨trivial, hs⟩)
      fingerprint := rfl }
  exact c.gather q

end Heeds

end Action

/-- Nothing is gathered under a cancelled context. -/
theorem Request.gather_of_isCancelled {w : Provision η} {r : Resolver} {s : Engine η}
    {reason : Value} (h : s.IsCancelled id reason) (q : Request) :
    q.gather w r id s = (.error (.ofFault (.cancelled reason)), s) := by
  cases q <;> exact Action.bind_of_error (Engine.checkContext_of_isCancelled h)

/-- In a list with a last member, a member that is not found before is the last one. -/
theorem eq_of_append_singleton {l l₁ l₂ : List α} {a b : α} (h : l ++ [b] = l₁ ++ a :: l₂)
    (ha : a ∉ l) : l₂ = [] ∧ a = b := by
  rcases List.eq_nil_or_concat l₂ with rfl | ⟨l₃, c, rfl⟩
  · exact ⟨rfl, (List.append_singleton_inj.1 h).2.symm⟩
  · rw [List.concat_eq_append, ← List.cons_append, ← List.append_assoc] at h
    exact absurd (by rw [(List.append_singleton_inj.1 h).1]; simp) ha

/-- **A call that leaves the context cancelled is the last deed** of a resolution, which fails and
leaves the engine as the call did; if the call gave an answer, the failure carries the reason. -/
theorem Request.resolve_of_isCancelled_after {h : Host η} {r : Resolver} {ctx : Option ContextId}
    {q : Request} {s : Engine η} {earlier later : List (Deed η)} {question : Question}
    {before after : Engine η} {answer : Except Problem Answer} {reason : Value}
    (hsplit : q.deeds (r.provision h) r ctx s =
      earlier ++ .consulted question before answer after :: later)
    (hafter : after.IsCancelled (s.opened ctx).1 reason) :
    later = [] ∧ ∃ e,
      q.resolve (r.provision h) r ctx s = (.error e, { after with running := s.running }) ∧
        (∀ a, answer = .ok a → e = .ofFault (.cancelled reason)) ∧
        (s.opened ctx).2.Leads (q.deeds (r.provision h) r ctx s).reverse after := by
  obtain ⟨o, t, hrun, hresolve, hdeeds⟩ := q.resolve_eq_diary (r.provision h) r ctx s
  rw [hdeeds] at hsplit ⊢
  have hmem : Deed.consulted question before answer after ∈ t.host.deeds := by
    rw [← List.mem_reverse, hsplit]
    simp
  rcases hgather : q.gather (r.provision h).diary r (s.opened ctx).1
    ((s.opened ctx).2.withDiary []) with ⟨g, v⟩
  have hgathers : (q.gather (r.provision h).diary r (s.opened ctx).1).Heeds (s.opened ctx).1 :=
    .gather q
  have hheeds := hgathers ((s.opened ctx).2.withDiary []) fun _ hd => nomatch hd
  have hhost := Action.host_thenStore (q.gather (r.provision h).diary r (s.opened ctx).1)
    ((s.opened ctx).2.withDiary [])
  rw [hrun, hgather] at hhost
  rw [hgather] at hheeds
  rcases hheeds with hlive | ⟨question', before', answer', after', hcancelled, hlive, hreported⟩
  · rw [hhost] at hmem
    exact absurd hafter (hlive _ hmem reason)
  · obtain ⟨rfl, rfl⟩ := Prod.mk.inj ((Action.bind_of_error hgather).symm.trans hrun)
    simp only [List.reverse_cons] at hsplit
    obtain ⟨rfl, hlast⟩ := eq_of_append_singleton hsplit fun hfound =>
      hlive _ (List.mem_reverse.1 hfound) reason hafter
    cases hlast
    obtain rfl := hcancelled.reason_eq hafter
    have hleads := q.leads_gather (r.isPure_provision h) r (s.opened ctx).1 (s.opened ctx).2
    rw [hgather] at hleads
    refine ⟨rfl, _, hresolve, hreported, ?_⟩
    rw [List.reverse_reverse]
    exact hleads

/-- **A cancelled resolution gives no answer.**  If the context is cancelled at the beginning, the
resolution fails with its reason and does nothing at all.  If the context is cancelled at some moment
of the call of a collaborator, and from then until the collaborator comes back nothing happens but
what may happen while no clock goes back, then that call is the last deed: nothing else is
asked, nothing is compiled, and the resolution fails.  It leaves the engine as the collaborator did,
and before that only calls and lookups were made, so nothing is stored.  If the collaborator gave an
answer, of whatever kind, the failure is that of the cancelled context, with its reason. -/
theorem Request.resolve_of_cancelled (h : Host η) (r : Resolver) (ctx : Option ContextId)
    (q : Request) (s : Engine η) :
    (∀ id reason, ctx = some id → s.IsCancelled id reason →
      q.resolve (r.provision h) r ctx s = (.error (.ofFault (.cancelled reason)), s) ∧
        q.deeds (r.provision h) r ctx s = []) ∧
      ∀ earlier question before answer after later u reason,
        q.deeds (r.provision h) r ctx s =
          earlier ++ .consulted question before answer after :: later →
        u.IsCancelled (s.opened ctx).1 reason →
        ReflTransGen (Engine.Onward (s.opened ctx).1) u after →
        later = [] ∧ ∃ e reason',
          q.resolve (r.provision h) r ctx s = (.error e, { after with running := s.running }) ∧
            after.IsCancelled (s.opened ctx).1 reason' ∧
            (∀ a, answer = .ok a → e = .ofFault (.cancelled reason')) ∧
            (s.opened ctx).2.Leads (q.deeds (r.provision h) r ctx s).reverse after := by
  refine ⟨?_, ?_⟩
  · rintro id reason rfl hcancelled
    obtain ⟨o, t, hrun, hresolve, hdeeds⟩ := q.resolve_eq_diary (r.provision h) r (some id) s
    have hopened : ((s.opened (some id)).2.withDiary []).IsCancelled id reason := hcancelled
    obtain ⟨rfl, rfl⟩ := Prod.mk.inj
      ((Action.bind_of_error (gather_of_isCancelled hopened q)).symm.trans hrun)
    exact ⟨hresolve, hdeeds⟩
  · intro earlier question before answer after later u reason hsplit hu honward
    obtain ⟨reason', hafter⟩ := Engine.exists_isCancelled_of_onward honward hu
    obtain ⟨hlast, e, hresolve, hreported, hleads⟩ := resolve_of_isCancelled_after hsplit hafter
    exact ⟨hlast, e, reason', hresolve, hafter, hreported, hleads⟩

/-- A host that gives up: asked for a policy, it cancels the resolution without a word and finds
nothing. -/
def weary : Host Unit where
  token _ _ s := (.ok .nothing, s)
  policy ctx _ s :=
    (.ok .nothing, { s with contexts := s.contexts.cancel ctx (some (.text "")) })

/-- The host that gives up is asked once, and the resolution is cancelled; that nothing was found is
not reported. -/
theorem Request.resolve_weary : ∃ t, (Request.policies (.list [.text "a", .text "b"])).resolve
    (sentry.provision weary) sentry none (Engine.start ()) =
      (.error (.ofFault (.cancelled "cancelled")), t) := by
  let s := (Engine.start ()).opened none
  let after := (weary.policy s.1 (.text "a") s.2).2
  have hdeeds : (Request.policies (.list [.text "a", .text "b"])).deeds (sentry.provision weary)
      sentry none (Engine.start ()) = [] ++ [.consulted (.policy (.text "a")) s.2 (.ok .nothing) after] :=
    rfl
  have hcancelled : after.IsCancelled s.1 "cancelled" := ⟨_, rfl, rfl, rfl⟩
  obtain ⟨-, e, reason, hresolve, hafter, hreported, -⟩ := (resolve_of_cancelled weary sentry none
    (.policies (.list [.text "a", .text "b"])) (Engine.start ())).2 _ _ _ _ _ _ _ _ hdeeds
      hcancelled .refl
  obtain ⟨c, hc, -, hreason⟩ := hafter
  obtain rfl : reason = "cancelled" := hreason.symm.trans (by cases hc; rfl)
  rw [hreported .nothing rfl] at hresolve
  exact ⟨_, hresolve⟩

end Gatehouse
