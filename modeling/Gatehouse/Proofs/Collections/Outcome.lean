import Mathlib.Data.List.Forall2

/-!
# Computations that may fail

How a computation that succeeds has come about (`Outcome.bind_eq_ok_iff`,
`Outcome.mapError_eq_ok_iff`), and that one made on each member of a list succeeds if it does on
every member (`Outcome.exists_mapM_eq_ok`).
-/

namespace Gatehouse

/-- What two lists promise of each other, the second one has. -/
theorem forall_mem_of_forall₂ {α β : Type} {Q : β → Prop} {l : List α} {l' : List β}
    (h : List.Forall₂ (fun _ b => Q b) l l') : ∀ b ∈ l', Q b := by
  induction h with
  | nil => exact fun _ hb => nomatch hb
  | cons hb _ ih => exact List.forall_mem_cons.2 ⟨hb, ih⟩

/-- What the first one has, the second one has something related to. -/
theorem exists_mem_of_forall₂ {α β : Type} {R : α → β → Prop} {l : List α} {l' : List β}
    (h : List.Forall₂ R l l') : ∀ a ∈ l, ∃ b ∈ l', R a b := by
  induction h with
  | nil => exact fun _ ha => nomatch ha
  | @cons _ b _ _ hab _ ih =>
    refine List.forall_mem_cons.2 ⟨⟨b, List.mem_cons_self, hab⟩, fun a ha => ?_⟩
    obtain ⟨b', hb', hab'⟩ := ih a ha
    exact ⟨b', List.mem_cons_of_mem _ hb', hab'⟩

namespace Outcome

variable {ε ε' α β : Type}

/-- A sequence succeeds exactly if both of its parts do. -/
theorem bind_eq_ok_iff {x : Except ε α} {f : α → Except ε β} {b : β} :
    (x >>= f) = .ok b ↔ ∃ a, x = .ok a ∧ f a = .ok b := by
  cases x with
  | error e => exact ⟨nofun, fun ⟨_, h, _⟩ => nomatch h⟩
  | ok a =>
    refine ⟨fun h => ⟨a, rfl, h⟩, ?_⟩
    rintro ⟨_, ⟨⟩, h⟩
    exact h

/-- Failures that are told otherwise make no difference to success. -/
theorem mapError_eq_ok_iff {g : ε → ε'} {x : Except ε α} {a : α} :
    x.mapError g = .ok a ↔ x = .ok a := by
  cases x with
  | error e => exact ⟨nofun, nofun⟩
  | ok b => exact ⟨fun h => congrArg _ (Except.ok.inj h), fun h => congrArg _ (Except.ok.inj h)⟩

/-- A result that is told otherwise is the result of a success. -/
theorem map_eq_ok_iff {g : α → β} {x : Except ε α} {b : β} :
    x.map g = .ok b ↔ ∃ a, x = .ok a ∧ g a = b := by
  cases x with
  | error e => exact ⟨nofun, fun ⟨_, h, _⟩ => nomatch h⟩
  | ok a => simp [Except.map]

/-- **What can be done with every member can be done with the list,** member by member. -/
theorem exists_mapM_eq_ok {f : α → Except ε β} {Q : α → β → Prop} {l : List α}
    (h : ∀ a ∈ l, ∃ b, f a = .ok b ∧ Q a b) : ∃ l', l.mapM f = .ok l' ∧ List.Forall₂ Q l l' := by
  induction l with
  | nil => exact ⟨[], rfl, .nil⟩
  | cons a rest ih =>
    obtain ⟨⟨b, hb, hQ⟩, hrest⟩ := List.forall_mem_cons.1 h
    obtain ⟨l', hl', hQs⟩ := ih hrest
    refine ⟨b :: l', ?_, .cons hQ hQs⟩
    rw [List.mapM_cons, hb, hl']
    rfl

end Outcome

end Gatehouse
