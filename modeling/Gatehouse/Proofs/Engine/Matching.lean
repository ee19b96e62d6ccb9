import Gatehouse.Proofs.Engine.Rules

/-!
# Outcomes that match

Two outcomes match if they fail alike, or both succeed with results that are related, and leave
states that are related (`Matches`).  Main statement: sequences match step by step (`Matches.bind`).
-/

namespace Gatehouse

/-- **Two outcomes match:** both fail, with the same error, or both succeed, with results related by
`Q`; the states that they leave are related by `R`. -/
inductive Matches {ε σ α β : Type} (R : σ → σ → Prop) (Q : α → β → Prop) :
    Except ε α × σ → Except ε β × σ → Prop where
  /-- They fail alike. -/
  | error {s t : σ} (e : ε) (states : R s t) : Matches R Q (.error e, s) (.error e, t)
  /-- They succeed. -/
  | ok {s t : σ} {a : α} {b : β} (results : Q a b) (states : R s t) :
    Matches R Q (.ok a, s) (.ok b, t)

namespace Matches

variable {η α α' β β' : Type} {R R' : Engine η → Engine η → Prop} {Q : α → α' → Prop}
  {S : β → β' → Prop} {s t : Engine η}

/-- Outcomes with the same result. -/
theorem of_eq {ε σ : Type} {R : σ → σ → Prop} {o o' : Except ε α × σ} (h : o.1 = o'.1)
    (states : R o.2 o'.2) : Matches R Eq o o' := by
  obtain ⟨e | a, s⟩ := o <;> obtain ⟨e' | a', t⟩ := o' <;> cases h
  · exact .error e states
  · exact .ok rfl states

/-- Actions that match with equal answers have the same outcome. -/
theorem fst_eq {ε σ : Type} {R : σ → σ → Prop} {o o' : Except ε α × σ} (h : Matches R Eq o o') :
    o.1 = o'.1 := by
  cases h with
  | error => rfl
  | ok results => rw [results]

/-- Actions that match leave matching states. -/
theorem states {ε σ : Type} {R : σ → σ → Prop} {o : Except ε α × σ} {o' : Except ε α' × σ}
    (h : Matches R Q o o') : R o.2 o'.2 := by
  cases h with
  | error _ states => exact states
  | ok _ states => exact states

/-- **Sequences match** if their first steps do, and if they go on alike from there. -/
theorem bind {x : Action η α} {y : Action η α'} {f : α → Action η β} {g : α' → Action η β'}
    (h : Matches R Q (x s) (y t)) (hR : ∀ s' t', R s' t' → R' s' t')
    (hf : ∀ a b s' t', x s = (.ok a, s') → Q a b → R s' t' → Matches R' S (f a s') (g b t')) :
    Matches R' S ((x >>= f) s) ((y >>= g) t) := by
  rcases hx : x s with ⟨e | a, s'⟩ <;> rcases hy : y t with ⟨e' | b, t'⟩ <;> rw [hx, hy] at h <;>
    cases h
  case error states =>
    rw [Action.bind_of_error hx, Action.bind_of_error hy]
    exact .error e (hR s' t' states)
  case ok results states =>
    rw [Action.bind_of_ok hx, Action.bind_of_ok hy]
    exact hf a b s' t' hx results states

/-- The same check of a context. -/
theorem checkContext (ctx : ContextId) (h : R s t) (hcontexts : s.contexts = t.contexts)
    (hclock : s.clock = t.clock) (hmachine : s.machine = t.machine) :
    Matches R Eq (Engine.checkContext ctx s) (Engine.checkContext ctx t) := by
  refine .of_eq (Engine.fst_checkContext_congr hcontexts hclock hmachine ctx) ?_
  rw [Engine.snd_checkContext, Engine.snd_checkContext]
  exact h

end Matches

end Gatehouse
