import Gatehouse.Proofs.Collections.Outcome
import Gatehouse.Proofs.Engine.Rules
import Gatehouse.Resolver.Resolution

/-!
# Rules for the parts of a resolution

What one part of a resolution does to an engine follows from what the collaborators do and from what
the parts before it have left (`Action.Meets`).  The rules here hold for steps of any sort and for
any promise; what is wanted of whole resolutions is put together from them.  Main statements: the
rule for fetching policies one after the other (`Action.Meets.fetchEach`), and that a resolution under
a context runs in the engine that opens with it (`Resolver.withContext_eq`).
-/

namespace Gatehouse

open Relation (ReflTransGen)

variable {η α : Type}

/-- Whatever holds before, it holds after. -/
def Engine.Keeping (I : Engine η → Prop) (s t : Engine η) : Prop := I s → I t

/-- What every step keeps true is true after any number of steps. -/
theorem Engine.keeping_of_reflTransGen {I : Engine η → Prop} {s t : Engine η}
    (h : ReflTransGen (Engine.Keeping I) s t) (hs : I s) : I t := by
  induction h with
  | refl => exact hs
  | tail _ hstep ih => exact hstep ih

/-- **What comes of consulting a collaborator:** nothing under a cancelled context, its failure, or
its answer unless the context was cancelled meanwhile. -/
theorem Resolver.consult_eq (lookup : Lookup η) (fault : Value → Fault) (ctx : ContextId)
    (subject : Value) (s : Engine η) : consult lookup fault ctx subject s =
      match (Engine.checkContext ctx s).1 with
      | .error e => (.error e, s)
      | .ok () => match lookup ctx subject s with
        | (.error p, t) => (.error (hostFailure fault p), t)
        | (.ok a, t) => ((Engine.checkContext ctx t).1.map fun _ => a, t) := by
  rcases h : Engine.checkContext ctx s with ⟨e | ⟨⟨⟩⟩, t⟩ <;>
    obtain rfl : s = t := Engine.eq_of_checkContext h
  · exact Action.bind_of_error h
  · refine (Action.bind_of_ok h).trans ?_
    dsimp only
    rcases hlookup : lookup ctx subject s with ⟨p | a, t⟩
    · exact Action.bind_of_error (by rw [hlookup])
    · refine (Action.bind_of_ok (a := a) (t := t) (by rw [hlookup])).trans ?_
      rcases hafter : Engine.checkContext ctx t with ⟨e | ⟨⟨⟩⟩, u⟩ <;>
        obtain rfl : t = u := Engine.eq_of_checkContext hafter <;> simp only [hafter]
      · exact Action.bind_of_error hafter
      · exact Action.bind_of_ok hafter

/-- Compiled policies that were fetched are merged as such. -/
theorem Resolver.Fetched.merge_eq {l : List Fetched} {cs : List AnyCompiled}
    (h : List.Forall₂ (fun f c => f.kept = .policy c) l cs) : merge l = AnyAcl.merge cs := by
  have hpolicies : policies l = (cs, none) := by
    induction h with
    | nil => rfl
    | cons hf _ ih => simp only [policies, hf, Kept.asPolicy, ih]
  rw [merge, hpolicies]

namespace Action.Meets

open Resolver

variable {R : Engine η → Engine η → Prop} {P : Engine η → Prop} {w : Provision η} {r : Resolver}
  {ctx : ContextId}

/-- A check of a context changes nothing. -/
theorem checkContext : (Engine.checkContext ctx).Meets R P fun _ => P :=
  .of_snd_eq (Engine.snd_checkContext ctx)

/-- **Consulting a collaborator** does what the collaborator does. -/
theorem consult {lookup : Lookup η} {fault : Value → Fault} {subject : Value}
    {Q : Answer → Engine η → Prop}
    (hlookup : ∀ s, P s → ReflTransGen R s (lookup ctx subject s).2 ∧
      ∀ a, (lookup ctx subject s).1 = .ok a → Q a (lookup ctx subject s).2) :
    (Resolver.consult lookup fault ctx subject).Meets R P Q := by
  refine .bind checkContext fun _ => .bind (Q := Q) ?_ fun a =>
    .bind (checkContext (P := Q a)) fun _ => .done fun _ h => h
  intro s hs
  obtain ⟨hsteps, hresult⟩ := hlookup s hs
  rcases h : lookup ctx subject s with ⟨p | a, t⟩ <;> rw [h] at hsteps hresult <;> simp only [h]
  · exact ⟨hsteps, fun _ h => nomatch h⟩
  · exact ⟨hsteps, fun b hb => Except.ok.inj hb ▸ hresult a rfl⟩

/-- Fetching a token does what the collaborator for secrets does, whose answer passes for one. -/
theorem fetchToken {secret : Text} {Q : Answer → Engine η → Prop}
    (hlookup : ∀ s, P s → ReflTransGen R s (w.token ctx (.text secret) s).2 ∧
      ∀ a, (w.token ctx (.text secret) s).1 = .ok a → Q a (w.token ctx (.text secret) s).2) :
    (Resolver.fetchToken w ctx secret).Meets R P fun names s =>
      ∃ a, a.policies? = some names ∧ Q a s := by
  refine .bind (consult hlookup) fun a => ?_
  rcases ha : a.policies? with _ | names
  · exact .fault
  · exact .done fun s hs => ⟨a, ha, hs⟩

/-- Fetching a policy does what the collaborator for policies does, whose answer passes for one. -/
theorem fetchPolicy {name : Value} {Q : Answer → Engine η → Prop}
    (hlookup : ∀ s, P s → ReflTransGen R s (w.policy ctx name s).2 ∧
      ∀ a, (w.policy ctx name s).1 = .ok a → Q a (w.policy ctx name s).2) :
    (Resolver.fetchPolicy w ctx name).Meets R P fun o s => ∃ a, a.policy? = some o ∧ Q a s := by
  refine .bind (consult hlookup) fun a => ?_
  rcases ha : a.policy? with _ | o
  · exact .fault
  · exact .done fun s hs => ⟨a, ha, hs⟩

/-- **Fetching policies one after the other:** what each of them is promised to be, and what no
later step can spoil, holds of all of them in the end. -/
theorem fetchEach {names : List Value} {G : Value → Fetched → Engine η → Prop}
    (hone : ∀ name ∈ names, (fetchCompiled w r ctx name).Meets R P fun f s => P s ∧ G name f s)
    (hkept : ∀ name f s t, R s t → G name f s → G name f t) :
    (Resolver.fetchEach w r ctx names).Meets R P fun l s =>
      P s ∧ List.Forall₂ (fun name f => G name f s) names l := by
  induction names with
  | nil => exact .done fun _ hs => ⟨hs, .nil⟩
  | cons name rest ih =>
    refine .bind (hone name List.mem_cons_self) fun f => ?_
    -- what was promised of the first one stays so while the others are fetched
    have hrest := (ih fun n hn => hone n (List.mem_cons_of_mem _ hn)).frame
      (I := fun s => G name f s) fun _ _ hstep hf => hkept name f _ _ hstep hf
    refine .bind (hrest.mono (fun _ h => ⟨h.2, h.1⟩) fun _ _ h => h) fun more => ?_
    exact .done fun s hs => ⟨hs.2.1, .cons hs.1 hs.2.2⟩

end Action.Meets

/-- A resolution under a context runs in the engine that opens with it. -/
theorem Resolver.withContext_eq (ctx : Option ContextId) (body : ContextId → Action η α)
    (s : Engine η) : withContext ctx body s =
      ((body (s.opened ctx).1 (s.opened ctx).2).1,
        { (body (s.opened ctx).1 (s.opened ctx).2).2 with running := s.running }) := by
  cases ctx <;> rfl

end Gatehouse
