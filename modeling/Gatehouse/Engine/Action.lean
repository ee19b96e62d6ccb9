import Gatehouse.Engine.State

/-!
# Actions

An `Action` is a step of the engine: it changes the state and gives a result or a failure; what it
changed before a failure stays changed.  Actions form a lawful monad, and a sequence of two succeeds
exactly if both do (`Action.andThen_eq_ok_iff`).
-/

namespace Gatehouse

/-- A step of the engine. -/
def Action (η α : Type) : Type := Engine η → Except Failure α × Engine η

namespace Action

variable {η α β : Type}

/-- The step that does nothing. -/
def done (a : α) : Action η α := fun s => (.ok a, s)

/-- A step followed by another one, unless it fails. -/
def andThen (x : Action η α) (f : α → Action η β) : Action η β := fun s =>
  match x s with
  | (.ok a, s) => f a s
  | (.error e, s) => (.error e, s)

instance : Monad (Action η) where
  pure := done
  bind := andThen

/-- A sequence goes on where its first step succeeds. -/
theorem andThen_of_ok {x : Action η α} {s t : Engine η} {a : α} (h : x s = (.ok a, t))
    (f : α → Action η β) : x.andThen f s = f a t := by
  simp [andThen, h]

/-- A sequence stops where its first step fails. -/
theorem andThen_of_error {x : Action η α} {s t : Engine η} {e : Failure} (h : x s = (.error e, t))
    (f : α → Action η β) : x.andThen f s = (.error e, t) := by
  simp [andThen, h]

/-- **A sequence succeeds exactly if both of its steps do.** -/
theorem andThen_eq_ok_iff {x : Action η α} {f : α → Action η β} {s u : Engine η} {b : β} :
    x.andThen f s = (.ok b, u) ↔ ∃ a t, x s = (.ok a, t) ∧ f a t = (.ok b, u) := by
  constructor
  · intro h
    rcases hx : x s with ⟨a | a, t⟩
    · rw [andThen_of_error hx] at h
      cases h
    · rw [andThen_of_ok hx] at h
      exact ⟨a, t, rfl, h⟩
  · rintro ⟨a, t, hx, hf⟩
    rw [andThen_of_ok hx, hf]

/-- A sequence of three steps may be grouped either way. -/
theorem andThen_assoc {γ : Type} (x : Action η α) (f : α → Action η β) (g : β → Action η γ) :
    (x.andThen f).andThen g = x.andThen fun a => (f a).andThen g := by
  funext s
  rcases hx : x s with ⟨a | a, t⟩
  · rw [andThen_of_error hx, andThen_of_error (andThen_of_error hx f)]
  · rw [andThen_of_ok hx]
    simp only [andThen, hx]

/-- A step followed by one that only returns its result is that step. -/
theorem andThen_done (x : Action η α) : x.andThen done = x := by
  funext s
  rcases hx : x s with ⟨a | a, t⟩
  · exact andThen_of_error hx _
  · exact andThen_of_ok hx _

instance : LawfulMonad (Action η) :=
  LawfulMonad.mk' (Action η) andThen_done (fun _ _ => rfl) andThen_assoc

/-- The step that fails. -/
def fail (e : Failure) : Action η α := fun s => (.error e, s)

/-- The step that fails with a fault. -/
def fault (f : Fault) : Action η α := fail (.ofFault f)

/-- The step that fails with a problem. -/
def problem (p : Problem) : Action η α := fail (.ofProblem p)

/-- A computation without effects. -/
def ofFault (x : Except Fault α) : Action η α :=
  match x with
  | .ok a => done a
  | .error f => fault f

/-- A computation without effects. -/
def ofProblem (x : Except Problem α) : Action η α :=
  match x with
  | .ok a => done a
  | .error p => problem p

/-- A reading of the state. -/
def read (f : Engine η → α) : Action η α := fun s => (.ok (f s), s)

/-- A change of the state. -/
def change (f : Engine η → Engine η) : Action η Unit := fun s => (.ok (), f s)

/-- A change of the state that gives a result. -/
def step (f : Engine η → α × Engine η) : Action η α := fun s => let r := f s; (.ok r.1, r.2)

end Action

end Gatehouse
