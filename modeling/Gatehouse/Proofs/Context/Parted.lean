import Gatehouse.Proofs.Context.Kept

/-!
# Contexts with one of them and without it

Where a context was let go, the others are there as they would be with it, and what was made below
it is a root.  Two forests of this kind are set side by side (`ContextForest.Parted`).  Main
statements: whatever cancelling reaches without the context it reaches with it, and the other way
round unless it gets through that context to something below it (`ContextForest.Parted.cut_below`);
and nothing from above gets there without it (`ContextForest.Parted.not_mem_below`).
-/

namespace Gatehouse

/-- **One context in both forests.**  It is a root where it was made below `x`, and where `S` holds
of it, it was stopped in both or in neither, for the same reason. -/
structure Context.Alike (x : ContextId) (S : ContextId → Prop) (c c' : Context) : Prop where
  /-- The number is the same. -/
  id : c'.id = c.id
  /-- The link is there still, unless it led to the context that is gone. -/
  parent : c'.parent = c.parent.filter fun p => decide (p ≠ x)
  /-- The deadline is the same. -/
  deadline : c'.deadline = c.deadline
  /-- It was stopped in both or in neither. -/
  isStopped : S c.id → c'.isStopped = c.isStopped
  /-- The reason is the same. -/
  givenReason : S c.id → c'.givenReason = c.givenReason

namespace ContextForest

/-- **Contexts with `x`, and the same without it.** -/
inductive Parted (x : ContextId) (S : ContextId → Prop) : List Context → List Context → Prop where
  | nil : Parted x S [] []
  /-- The context that is gone. -/
  | gone {c : Context} {l l' : List Context} (hid : c.id = x) (hrest : Parted x S l l') :
      Parted x S (c :: l) l'
  /-- Another one. -/
  | other {c c' : Context} {l l' : List Context} (hid : c.id ≠ x) (halike : c.Alike x S c')
      (hrest : Parted x S l l') : Parted x S (c :: l) (c' :: l')

/-- What is reached with `x` and what is reached without it, where `D` holds of what is below
`x`. -/
structure Cut (x : ContextId) (D : ContextId → Prop) (reached reached' : List ContextId) :
    Prop where
  /-- What is reached without `x` is reached with it. -/
  mem : ∀ i ∈ reached', i ∈ reached
  /-- What is reached with `x` only is below `x`, which is reached itself. -/
  through : ∀ i ∈ reached, i ≠ x → i ∈ reached' ∨ D i ∧ x ∈ reached

variable {x : ContextId} {S D : ContextId → Prop} {l l' : List Context}
  {reached reached' : List ContextId}

/-- Where the same is reached, nothing is cut. -/
theorem Cut.refl : Cut x D reached reached := ⟨fun _ hi => hi, fun _ hi _ => .inl hi⟩

/-- Something more is reached with `x`, and maybe without it. -/
theorem Cut.cons (h : Cut x D reached reached') (i : ContextId) (hi : i ≠ x → D i ∧ x ∈ reached) :
    Cut x D (i :: reached) reached' := by
  refine ⟨fun j hj => List.mem_cons_of_mem _ (h.mem j hj), fun j hj hne => ?_⟩
  rcases List.mem_cons.1 hj with rfl | hj
  · exact .inr ((hi hne).imp_right (List.mem_cons_of_mem _))
  · exact (h.through j hj hne).imp_right (And.imp_right (List.mem_cons_of_mem _))

/-- Something more is reached in both. -/
theorem Cut.cons_both (h : Cut x D reached reached') (i : ContextId) :
    Cut x D (i :: reached) (i :: reached') := by
  refine ⟨fun j hj => ?_, fun j hj hne => ?_⟩
  · exact List.mem_cons.2 ((List.mem_cons.1 hj).imp_right (h.mem j))
  · rcases List.mem_cons.1 hj with rfl | hj
    · exact .inl List.mem_cons_self
    · exact (h.through j hj hne).imp (List.mem_cons_of_mem _)
        (And.imp_right (List.mem_cons_of_mem _))

/-- A context is reached from what it was made below. -/
theorem any_contains_iff {parent : Option ContextId} :
    parent.any reached.contains = true ↔ ∃ p ∈ parent, p ∈ reached := by
  simp [Option.any_eq_true]

/-- Without `x`, a context is reached from what it was made below unless that is `x`. -/
theorem any_contains_iff_of_alike {c c' : Context} (h : c.Alike x S c') :
    c'.parent.any reached'.contains = true ↔ ∃ p ∈ c.parent, p ≠ x ∧ p ∈ reached' := by
  simp [h.parent, Option.any_eq_true]

/-- Stopping changes neither the number of a context nor what it was made below. -/
theorem id_ite_stopped (p : Prop) [Decidable p] (reason : Option Value) (c : Context) :
    (if p then stopped reason c else c).id = c.id := by
  split <;> rfl

/-- A context stopped in both forests, or in one of them if it was stopped already. -/
theorem alike_ite_stopped {c c' : Context} (h : c.Alike x S c') (reason : Option Value)
    {p p' : Prop} [Decidable p] [Decidable p']
    (hp : S c.id → (p ↔ p') ∨ stopped reason c = c) :
    (if p then stopped reason c else c).Alike x S (if p' then stopped reason c' else c') := by
  have hboth : S c.id → (if p' then stopped reason c' else c').isStopped =
        (if p then stopped reason c else c).isStopped ∧
      (if p' then stopped reason c' else c').givenReason =
        (if p then stopped reason c else c).givenReason := by
    intro hS
    have hstopped := h.isStopped hS
    have hreason := h.givenReason hS
    rcases hp hS with hiff | hsame
    · by_cases hp' : p'
      · rw [if_pos hp', if_pos (hiff.2 hp')]
        exact ⟨rfl, congrArg (Option.or · reason) hreason⟩
      · rw [if_neg hp', if_neg (hp' ∘ hiff.1)]
        exact ⟨hstopped, hreason⟩
    · rw [hsame, ite_self]
      split
      · exact ⟨(congrArg Context.isStopped hsame :),
          (congrArg (Option.or · reason) hreason).trans (congrArg Context.givenReason hsame)⟩
      · exact ⟨hstopped, hreason⟩
  rw [← id_ite_stopped p reason c] at hboth
  refine ⟨?_, ?_, ?_, fun hS => (hboth hS).1, fun hS => (hboth hS).2⟩
  · rw [id_ite_stopped, id_ite_stopped, h.id]
  · split <;> split <;> exact h.parent
  · split <;> split <;> exact h.deadline

namespace Parted

/-- Contexts that are parted in two pieces are parted together. -/
theorem append {m m' : List Context} (h : Parted x S l l') (hm : Parted x S m m') :
    Parted x S (l ++ m) (l' ++ m') := by
  induction h with
  | nil => exact hm
  | gone hid _ ih => exact .gone hid ih
  | other hid halike _ ih => exact .other hid halike ih

/-- Less can be said of fewer contexts. -/
theorem imp {S' : ContextId → Prop} (h : Parted x S l l') (hsub : ∀ c ∈ l, S' c.id → S c.id) :
    Parted x S' l l' := by
  induction h with
  | nil => exact .nil
  | gone hid _ ih => exact .gone hid (ih (List.forall_mem_cons.1 hsub).2)
  | other hid halike _ ih =>
    obtain ⟨hc, hrest⟩ := List.forall_mem_cons.1 hsub
    exact .other hid ⟨halike.id, halike.parent, halike.deadline, halike.isStopped ∘ hc,
      halike.givenReason ∘ hc⟩ (ih hrest)

/-- What is there without `x` is there with it. -/
theorem exists_of_mem (h : Parted x S l l') {c' : Context} (hc' : c' ∈ l') :
    ∃ c ∈ l, c.id ≠ x ∧ c.Alike x S c' := by
  induction h with
  | nil => cases hc'
  | gone _ _ ih => exact (ih hc').imp fun _ hc => hc.imp_left (List.mem_cons_of_mem _)
  | other hid halike _ ih =>
    rcases List.mem_cons.1 hc' with rfl | hc'
    · exact ⟨_, List.mem_cons_self, hid, halike⟩
    · exact (ih hc').imp fun _ hc => hc.imp_left (List.mem_cons_of_mem _)

/-- A context is in both forests or in neither. -/
theorem find? (h : Parted x S l l') {y : ContextId} (hne : y ≠ x) :
    l.find? (fun c => c.id == y) = none ∧ l'.find? (fun c => c.id == y) = none ∨
      ∃ c c', l.find? (fun c => c.id == y) = some c ∧ l'.find? (fun c => c.id == y) = some c' ∧
        c.id = y ∧ c.Alike x S c' := by
  induction h with
  | nil => exact .inl ⟨rfl, rfl⟩
  | @gone c _ _ hid _ ih =>
    have hc : (c.id == y) = false := beq_false_of_ne (hid ▸ hne.symm)
    simpa only [List.find?_cons, hc] using ih
  | @other c c' _ _ _ halike _ ih =>
    by_cases hc : c.id = y
    · exact .inr ⟨c, c', by simp [hc], by simp [halike.id, hc], hc, halike⟩
    · have hboth : (c.id == y) = false := beq_false_of_ne hc
      simpa only [List.find?_cons, halike.id, hboth] using ih

/-- **What cancelling reaches with a context and without it.** -/
theorem cut_below (h : Parted x S l l') (hx : D x) (hdown : ∀ c ∈ l, ∀ p ∈ c.parent, D p → D c.id)
    (hcut : Cut x D reached reached') :
    Cut x D (ContextForest.below reached l) (ContextForest.below reached' l') := by
  induction h generalizing reached reached' with
  | nil => exact hcut
  | @gone c l l' hid _ ih =>
    rw [ContextForest.below]
    split
    · exact ih (List.forall_mem_cons.1 hdown).2 (hcut.cons _ fun hne => absurd hid hne)
    · exact ih (List.forall_mem_cons.1 hdown).2 hcut
  | @other c c' l l' hid halike _ ih =>
    obtain ⟨hc, hrest⟩ := List.forall_mem_cons.1 hdown
    rw [ContextForest.below, ContextForest.below, halike.id]
    split <;> split
    · exact ih hrest (hcut.cons_both _)
    · -- reached with `x` only: what it was made below is `x` or was reached with `x` only itself
      next hyes hno =>
      obtain ⟨p, hp, hmem⟩ := any_contains_iff.1 hyes
      have hthrough : D p ∧ x ∈ reached := by
        by_cases hpx : p = x
        · exact ⟨hpx ▸ hx, hpx ▸ hmem⟩
        · refine (hcut.through p hmem hpx).resolve_left fun hmem' => ?_
          exact hno ((any_contains_iff_of_alike halike).2 ⟨p, hp, hpx, hmem'⟩)
      exact ih hrest (hcut.cons _ fun _ => ⟨hc p hp hthrough.1, hthrough.2⟩)
    · next hno hyes =>
      obtain ⟨p, hp, -, hmem⟩ := (any_contains_iff_of_alike halike).1 hyes
      exact absurd (any_contains_iff.2 ⟨p, hp, hcut.mem p hmem⟩) hno
    · exact ih hrest hcut

/-- **Without a context nothing below it is reached** from anywhere else. -/
theorem not_mem_below (h : Parted x S l l')
    (hup : ∀ c ∈ l, D c.id → c.id = x ∨ ∃ p ∈ c.parent, D p) (hnot : ∀ i ∈ reached', ¬ D i) :
    ∀ i ∈ ContextForest.below reached' l', ¬ D i := by
  induction h generalizing reached' with
  | nil => exact hnot
  | gone _ _ ih => exact ih (List.forall_mem_cons.1 hup).2 hnot
  | other hid halike _ ih =>
    obtain ⟨hc, hrest⟩ := List.forall_mem_cons.1 hup
    rw [ContextForest.below, halike.id]
    split
    · next hyes =>
      obtain ⟨p, hp, -, hmem⟩ := (any_contains_iff_of_alike halike).1 hyes
      refine ih hrest (List.forall_mem_cons.2 ⟨fun hD => ?_, hnot⟩)
      obtain ⟨q, hq, hDq⟩ := (hc hD).resolve_left hid
      exact hnot p hmem (Option.some.inj (hq.symm.trans hp) ▸ hDq)
    · exact ih hrest hnot

/-- **Contexts are stopped in both forests,** or in one of them if they were stopped already. -/
theorem map_stopped (h : Parted x S l l') (reason : Option Value)
    (hmem : ∀ c ∈ l, c.id ≠ x → S c.id → (c.id ∈ reached ↔ c.id ∈ reached') ∨
      stopped reason c = c) :
    Parted x S (l.map fun c => if reached.contains c.id then stopped reason c else c)
      (l'.map fun c => if reached'.contains c.id then stopped reason c else c) := by
  induction h with
  | nil => exact .nil
  | gone hid _ ih =>
    exact .gone ((id_ite_stopped ..).trans hid) (ih (List.forall_mem_cons.1 hmem).2)
  | other hid halike _ ih =>
    obtain ⟨hc, hrest⟩ := List.forall_mem_cons.1 hmem
    refine .other (fun e => hid ((id_ite_stopped ..).symm.trans e)) ?_ (ih hrest)
    refine alike_ite_stopped halike reason fun hS => ?_
    simpa only [List.contains_iff_mem, halike.id] using hc hid hS

/-- **The same context is made in both forests,** below another one that is in both. -/
theorem create {f f' : ContextForest} (h : Parted x S f.contexts f'.contexts)
    (hnext : f'.next = f.next) (hne : f.next ≠ x) {parent : Option ContextId}
    (hparent : ∀ p ∈ parent, p ≠ x ∧ (S f.next → S p)) (source : TimeSource)
    (timeout : Option Float) (now : Float) :
    Parted x S (f.create source parent timeout now).1.contexts
      (f'.create source parent timeout now).1.contexts := by
  refine h.append (.other hne ?_ .nil)
  cases parent with
  | none => exact ⟨hnext, rfl, rfl, fun _ => rfl, fun _ => rfl⟩
  | some p =>
    obtain ⟨hpx, hS⟩ := hparent p rfl
    rcases h.find? hpx with ⟨hc, hc'⟩ | ⟨c, c', hc, hc', rfl, halike⟩
    · have hfind : f.find? p = none := hc
      have hfind' : f'.find? p = none := hc'
      simp only [Option.bind_some, hfind, hfind']
      exact ⟨hnext, rfl, rfl, fun _ => rfl, fun _ => rfl⟩
    · have hfind : f.find? c.id = some c := hc
      have hfind' : f'.find? c.id = some c' := hc'
      simp only [Option.bind_some, hfind, hfind', Option.map_some, halike.id]
      refine ⟨hnext, ?_, ?_, fun hn => ?_, fun hn => ?_⟩
      · simp [Option.filter_some, hpx]
      · rw [halike.deadline]
      · rw [halike.givenReason (hS hn)]
      · exact halike.givenReason (hS hn)

/-- Letting go of a context. -/
theorem release {held : List ContextId} (hheld : ∀ c ∈ l, c.id ∈ held ↔ c.id ≠ x)
    (hparent : ∀ c ∈ l, ∀ p ∈ c.parent, p ∈ held ↔ p ≠ x) :
    Parted x S l ((l.filter fun c => held.contains c.id).map fun c =>
      { c with parent := c.parent.filter held.contains }) := by
  induction l with
  | nil => exact .nil
  | cons c rest ih =>
    obtain ⟨hc, hrest⟩ := List.forall_mem_cons.1 hheld
    obtain ⟨hp, hprest⟩ := List.forall_mem_cons.1 hparent
    rw [List.filter_cons]
    split
    · next hmem =>
      have hlink : c.parent.filter held.contains = c.parent.filter fun p => decide (p ≠ x) := by
        generalize c.parent = parent at hp
        cases parent with
        | none => rfl
        | some p => simp [Option.filter_some, hp p rfl]
      exact .other (hc.1 (List.contains_iff_mem.1 hmem))
        ⟨rfl, hlink, rfl, fun _ => rfl, fun _ => rfl⟩ (ih hrest hprest)
    · next hmem =>
      refine .gone ?_ (ih hrest hprest)
      by_contra hne
      exact hmem (List.contains_iff_mem.2 (hc.2 hne))

end Parted

end ContextForest

end Gatehouse
