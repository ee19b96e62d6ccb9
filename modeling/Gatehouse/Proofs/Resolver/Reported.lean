import Gatehouse.Proofs.Resolver.Accounted
import Gatehouse.Proofs.Resolver.Stored

/-!
# Denial is never taken for breakage

A resolution gives a complete answer or reports breakage, whatever its collaborators answer or
raise at each of its calls, while its context stays live.  It never reports a negative decision, not
even one that a collaborator raises, and it never leaves a policy out: a call that goes wrong makes
the whole resolution fail, in the one way that there is for what went wrong.  Main statement:
`Request.resolve_reports`.

One thing that is asked for breaks this rule: a secret that holds surrogates has no digest, and the
problem with it is passed on as it is, although it is no breakage of the engine
(`Request.resolve_of_unencodable?`).
-/

namespace Gatehouse

variable {η : Type} {h : Host η} {r : Resolver} {s : Engine η} {ctx : Option ContextId}

namespace Request

variable {q : Request}

section Resolving

variable (hh : h.AnswersInOrder r) (hs : r.InOrder s) (hq : q.IsFit)
  (hlive : (s.opened ctx).2.HasLive (s.opened ctx).1)
  (hdeeds : ∀ d ∈ q.deeds (r.provision h) r ctx s, d.LeavesLive (s.opened ctx).1)
include hh hs hq hlive hdeeds

/-- **A resolution accounts for its outcome.**  While its context is live, it gives a complete answer
and all of its deeds went well; or nothing was asked for, and nothing was done; or its last deed was
the first to go wrong, and the resolution fails with what that is reported as. -/
theorem resolve_accounts :
    (∃ k, (q.resolve (r.provision h) r ctx s).1 = .ok k ∧
        (∀ d ∈ q.deeds (r.provision h) r ctx s, d.failure? = none) ∧
        q.IsAnswered r s (q.deeds (r.provision h) r ctx s) k) ∨
      (q.AsksNothing ∧ q.deeds (r.provision h) r ctx s = [] ∧
        (q.resolve (r.provision h) r ctx s).1 =
          .error (.ofFault (.secretResolution "secret must be a non-empty string"))) ∨
      ∃ e earlier d, (q.resolve (r.provision h) r ctx s).1 = .error e ∧
        e.problem.isEngine = true ∧ q.deeds (r.provision h) r ctx s = earlier ++ [d] ∧
        d.failure? = some e ∧ ∀ d' ∈ earlier, d'.failure? = none := by
  obtain ⟨o, t, hrun, hresolve, hnoted⟩ := q.resolve_eq_diary (r.provision h) r ctx s
  let s₁ := (s.opened ctx).2.withDiary []
  rw [hnoted] at hdeeds ⊢
  rw [hresolve]
  by_cases hasks : q.AsksNothing
  · have hgather := gather_of_asksNothing (w := (r.provision h).diary) (r := r) hasks (s := s₁) hlive
    obtain ⟨rfl, rfl⟩ := Prod.mk.inj ((Action.bind_of_error hgather).symm.trans hrun)
    exact .inr (.inl ⟨hasks, rfl, rfl⟩)
  have hopened : r.InOrder s₁.plain := hs.of_caches_eq (Engine.caches_opened ctx s)
  obtain ⟨new, hnew, houtcome⟩ := accounts_gather hh hq hasks s₁ ⟨hopened, rfl⟩ hlive
  rw [show s₁.host.deeds = [] from rfl, List.append_nil] at hnew
  rcases hgather : q.gather (r.provision h).diary r (s.opened ctx).1 s₁ with ⟨e | g, u⟩ <;>
    rw [hgather] at hnew houtcome
  · obtain ⟨rfl, rfl⟩ := Prod.mk.inj ((Action.bind_of_error hgather).symm.trans hrun)
    rw [hnew] at hdeeds ⊢
    cases houtcome with
    | @last d earlier broke engine well =>
      refine .inr (.inr ⟨e, earlier.reverse, d, rfl, engine, List.reverse_cons, broke, ?_⟩)
      exact fun d' hd' => well d' (List.mem_reverse.1 hd')
    | cancelled mem dead => exact absurd (hdeeds _ (List.mem_reverse.2 mem)) dead
  · obtain ⟨hwell, -, hfits, hinOrder, hanswered⟩ := houtcome
    -- once all is gathered, the caches accept what is to be kept
    have hplain : ∀ st ∈ g.1, (u.cache st.cache).IsPlain := fun st hst => by
      rcases (hfits st hst).1 with huses | huses
      · exact huses ▸ hinOrder.policies.plain
      · exact huses ▸ hinOrder.lists.plain
    obtain ⟨t', hstored, hhost, -, -⟩ := Action.thenStore_of_accepted hgather hplain
      fun st hst => Cache.accepts_of_unfit? (hplain st hst) (hfits st hst).2
    obtain ⟨rfl, rfl⟩ := Prod.mk.inj (hstored.symm.trans hrun)
    rw [hhost, hnew]
    refine .inl ⟨g.2, rfl, fun d hd => hwell d (List.mem_reverse.1 hd), ?_⟩
    exact hanswered.mono (hnew ▸ List.subset_reverse.2 (List.Subset.refl _))
      (Engine.cache_opened ctx s r.aclCache).symm (Engine.clock_opened ctx s).symm

/-- Whatever goes wrong is what a resolution fails with. -/
theorem resolve_of_failure? {d : Deed η} {e : Failure}
    (hd : d ∈ q.deeds (r.provision h) r ctx s) (he : d.failure? = some e) :
    (q.resolve (r.provision h) r ctx s).1 = .error e := by
  rcases resolve_accounts hh hs hq hlive hdeeds with ⟨k, -, hwell, -⟩ | ⟨-, hnone, -⟩ |
    ⟨e', earlier, d', hfailed, -, hdone, hbroke, hwell⟩
  · rw [hwell d hd] at he
    cases he
  · rw [hnone] at hd
    cases hd
  · rw [hdone, List.mem_append, List.mem_singleton] at hd
    rcases hd with hd | rfl
    · rw [hwell d hd] at he
      cases he
    · rw [hfailed, Option.some.inj (hbroke.symm.trans he)]

/-- A resolution fails with breakage of the engine, and with something that went wrong, unless nothing
was asked for. -/
theorem isEngine_of_resolve {e : Failure}
    (he : (q.resolve (r.provision h) r ctx s).1 = .error e) :
    e.problem.isEngine = true ∧
      (q.AsksNothing ∧ q.deeds (r.provision h) r ctx s = [] ∨
        ∃ d ∈ q.deeds (r.provision h) r ctx s, d.failure? = some e) := by
  rcases resolve_accounts hh hs hq hlive hdeeds with ⟨k, hok, -⟩ | ⟨hasks, hnone, hfailed⟩ |
    ⟨e', earlier, d, hfailed, hengine, hdone, hbroke, -⟩
  · cases he.symm.trans hok
  · obtain rfl := Except.error.inj (he.symm.trans hfailed)
    exact ⟨rfl, .inl ⟨hasks, hnone⟩⟩
  · obtain rfl := Except.error.inj (he.symm.trans hfailed)
    have hmem : d ∈ q.deeds (r.provision h) r ctx s :=
      hdone ▸ List.mem_append_right _ (List.mem_singleton_self d)
    exact ⟨hengine, .inr ⟨d, hmem, hbroke⟩⟩

end Resolving

/-- **A secret that cannot be encoded is not refused as a secret is:** the resolution asks for
nothing, and fails with a problem that is no breakage of the engine. -/
theorem resolve_of_unencodable? {x : Text} {p : Problem} (hx : x.unencodable? = some p)
    (hlive : (s.opened ctx).2.HasLive (s.opened ctx).1) :
    ((secret (.text x)).resolve (r.provision h) r ctx s).1 = .error (.ofProblem p) ∧
      p.isEngine = false ∧ (secret (.text x)).deeds (r.provision h) r ctx s = [] := by
  obtain ⟨o, t, hrun, hresolve, hnoted⟩ := (secret (.text x)).resolve_eq_diary (r.provision h) r ctx s
  let s₁ := (s.opened ctx).2.withDiary []
  have hgather := gather_of_unencodable? (w := (r.provision h).diary) (r := r) hx (s := s₁) hlive
  obtain ⟨rfl, rfl⟩ := Prod.mk.inj ((Action.bind_of_error hgather).symm.trans hrun)
  exact ⟨by rw [hresolve], Text.isEngine_of_unencodable? hx, hnoted⟩

/-- A host that has no policy for the night and takes that for a decision. -/
def nightless : Host Unit where
  token _ _ s := (.ok .nothing, s)
  policy _ name s :=
    (if name = .text "day" then .ok (.policy ⟨"day", [], .text "1"⟩)
      else .error (.fault (.notAuthorized "gate" "night" "pass")), s)

/-- The host without a policy for the night answers in order, where it answers. -/
theorem answersInOrder_nightless : nightless.AnswersInOrder sentry where
  token _ _ _ hs := ⟨hs, fun a ha => by
    obtain rfl := Except.ok.inj ha
    exact nofun⟩
  policy _ name _ hs := ⟨hs, fun a ha => by
    dsimp only [nightless] at ha
    split at ha
    · obtain rfl := Except.ok.inj ha
      exact Answer.offersTexts_policy rfl
    · cases ha⟩

/-- The sentry's caches are in order in the evening. -/
theorem inOrder_evening : sentry.InOrder evening :=
  ⟨.of_empty trivial fun _ => rfl, .of_empty trivial fun _ => rfl⟩

/-- A single surrogate. -/
def unpaired : Text := ⟨[⟨0xd800, by decide⟩]⟩

end Request

end Gatehouse
