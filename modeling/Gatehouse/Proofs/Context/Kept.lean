import Gatehouse.Proofs.Context.History

/-!
# Contexts and their history

Cancelling passes down the tree when it is called for, a new context takes over the reason of the
one that it is made below, and deadlines are put together when contexts are made.  None of this
looks at the history, and yet each context is at all times what the history says it should be
(`ContextHistory.Reflects`).  This holds of no contexts and is kept by every event, together with
what cancelling reaches, which is exactly what is below (`ContextHistory.Kept`).  Main statement:
`ContextHistory.kept`.
-/

namespace Gatehouse

/-! ### What cancelling reaches -/

namespace ContextForest

variable {reached : List ContextId} {l : List Context}

/-- The last context is reached if what it was made below is. -/
theorem below_append (c : Context) :
    below reached (l ++ [c]) =
      if c.parent.any (below reached l).contains then c.id :: below reached l
      else below reached l := by
  induction l generalizing reached with
  | nil => rfl
  | cons d rest ih =>
    rw [List.cons_append, below, below]
    split <;> exact ih

/-- Where nothing was made below what is reached, nothing more is reached. -/
theorem below_of_forall_not_mem (h : ∀ c ∈ l, ∀ p ∈ c.parent, p ∉ reached) :
    below reached l = reached := by
  induction l with
  | nil => rfl
  | cons c rest ih =>
    obtain ⟨hc, hrest⟩ := List.forall_mem_cons.1 h
    have hnot : ¬ c.parent.any reached.contains = true := by
      rcases hp : c.parent with _ | p
      · exact nofun
      · simpa using hc p hp
    rw [below, if_neg hnot, ih hrest]

/-- What is reached depends only on what contexts were made below. -/
theorem below_map {g : Context → Context} (hid : ∀ c, (g c).id = c.id)
    (hparent : ∀ c, (g c).parent = c.parent) : below reached (l.map g) = below reached l := by
  induction l generalizing reached with
  | nil => rfl
  | cons c rest ih =>
    rw [List.map_cons, below, below, hid, hparent]
    split <;> exact ih

section Cancel

variable (f : ContextForest) (id : ContextId) (reason : Option Value)

/-- Cancelling keeps the contexts in their order. -/
theorem map_id_cancel : (f.cancel id reason).contexts.map Context.id = f.contexts.map Context.id := by
  rw [cancel, List.map_map]
  refine List.map_congr_left fun c _ => ?_
  rw [Function.comp_apply]
  split <;> rfl

/-- Cancelling makes no difference to what is below a context. -/
theorem below_cancel : below reached (f.cancel id reason).contexts = below reached f.contexts := by
  refine below_map (fun c => ?_) fun c => ?_ <;> split <;> rfl

/-- **Cancelling stops what is reached,** and leaves all else as it is. -/
theorem exists_of_mem_cancel {c' : Context} (h : c' ∈ (f.cancel id reason).contexts) :
    ∃ c ∈ f.contexts, c' = if c.id ∈ below [id] f.contexts then stopped reason c else c := by
  obtain ⟨c, hc, rfl⟩ := List.mem_map.1 h
  refine ⟨c, hc, ?_⟩
  simp only [List.contains_iff_mem]

end Cancel

end ContextForest

namespace ContextHistory

variable {start : Float} {h rest : List ContextEvent}

/-- **A context is what the history says it should be.** -/
structure Reflects (start : Float) (h : List ContextEvent) (c : Context) : Prop where
  /-- It is below the context that it was made below. -/
  parent : c.parent = parentOf h c.id
  /-- Its deadline is the least one of it and those above it. -/
  deadline : LeastDeadline start h c.id c.deadline
  /-- Its reason is that of the first call. -/
  reason : Reason (Under h c.id) h c.givenReason
  /-- It is cancelled if there is a reason. -/
  stopped : c.isStopped = c.givenReason.isSome

/-- **The contexts are what the history says they should be.** -/
structure Kept (start : Float) (h : List ContextEvent) : Prop where
  /-- They are in the order in which they were made. -/
  ids : (forest start h).contexts.map Context.id = List.range (made h)
  /-- The next one has the next number. -/
  next : (forest start h).next = made h
  /-- Each of them is what it should be. -/
  reflects : ∀ c ∈ (forest start h).contexts, Reflects start h c
  /-- Cancelling one of them reaches those below it. -/
  below : ∀ id < made h, ∀ i,
    i ∈ ContextForest.below [id] (forest start h).contexts ↔ Under h i id

namespace Kept

/-- Every context that was made is there. -/
theorem exists_find? (hk : Kept start h) {id : ContextId} (hid : id < made h) :
    ∃ c, (forest start h).find? id = some c ∧ c.id = id ∧ Reflects start h c := by
  have hmem : id ∈ (forest start h).contexts.map Context.id := by
    rw [hk.ids]
    exact List.mem_range.2 hid
  obtain ⟨c, hc, hcid⟩ := List.mem_map.1 hmem
  rcases hfind : (forest start h).find? id with _ | c'
  · exact absurd (beq_iff_eq.2 hcid) (List.find?_eq_none.1 hfind c hc)
  · exact ⟨c', rfl, beq_iff_eq.1 (List.find?_some hfind :),
      hk.reflects c' (List.mem_of_find?_eq_some hfind)⟩

/-- The numbers of contexts are below that of the next one. -/
theorem lt_made (hk : Kept start h) {c : Context} (hc : c ∈ (forest start h).contexts) :
    c.id < made h := by
  have hmem := List.mem_map_of_mem (f := Context.id) hc
  rw [hk.ids] at hmem
  exact List.mem_range.1 hmem

end Kept

/-! ### What each event does -/

namespace Reflects

variable {c : Context} {id : ContextId} {reason : Text}

/-- Time makes no difference to what a context is. -/
theorem wait (hr : Reflects start h c) (now : Float) : Reflects start (.wait now :: h) c :=
  ⟨hr.parent, hr.deadline, hr.reason.cons nofun, hr.stopped⟩

/-- Cancelling makes no difference to a context that is not below. -/
theorem spared (hr : Reflects start h c) (hnot : ¬ Under h c.id id) :
    Reflects start (.cancel id reason :: h) c := by
  refine ⟨hr.parent, hr.deadline, hr.reason.cons ?_, hr.stopped⟩
  rintro _ _ ⟨⟩
  exact hnot

/-- Cancelling stops a context that is below, for the reason given unless there is one already. -/
theorem reached (hr : Reflects start h c) (hu : Under h c.id id) :
    Reflects start (.cancel id reason :: h)
      (ContextForest.stopped (some (.text reason)) c) := by
  refine ⟨hr.parent, hr.deadline, hr.reason.call hu, ?_⟩
  cases hg : c.givenReason <;> simp [ContextForest.stopped, hg]

/-- What a new context begins with is what there is above it. -/
theorem of_above {parent : Option ContextId} {above : Option Context}
    (habove : above.map (·.id) = parent) (hr : ∀ c ∈ above, Reflects start h c) :
    Least (Above h parent) (ownDeadline start h) (above.bind (·.deadline)) ∧
      Reason (Above h parent) h (above.bind (·.givenReason)) := by
  subst habove
  cases above with
  | none =>
    have hnone : ∀ a, ¬ Above h none a := by
      rintro a ⟨p, hp, -⟩
      cases hp
    exact ⟨fun a ha => absurd ha (hnone a), fun a _ _ => hnone a⟩
  | some c =>
    have hiff : ∀ a, Above h (some c.id) a ↔ Under h c.id a := by simp [Above]
    have hc := hr c rfl
    exact ⟨hc.deadline.congr hiff fun _ _ => rfl, hc.reason.congr fun a _ _ => (hiff a).symm⟩

section Create

variable {parent : Option ContextId} {timeout : Option Float}
  (hl : Lawful start (.create parent timeout :: h))
include hl

/-- A new context makes no difference to those that are there. -/
theorem create_old (hr : Reflects start h c) (hid : c.id < made h) :
    Reflects start (.create parent timeout :: h) c := by
  have hunder : ∀ a, Under (.create parent timeout :: h) c.id a ↔ Under h c.id a :=
    fun a => under_create_old hl hid
  have hown : ∀ a, Under h c.id a →
      ownDeadline start (.create parent timeout :: h) a = ownDeadline start h a :=
    fun a hu => if_neg (Nat.ne_of_lt ((hl.tail.le_of_under hu).trans_lt hid))
  exact ⟨hr.parent.trans (if_neg (Nat.ne_of_lt hid)).symm, hr.deadline.congr hunder hown,
    (hr.reason.congr fun a _ _ => (hunder a).symm).cons nofun, hr.stopped⟩

/-- **A new context begins as the one that it is made below is,** and with a deadline of its own. -/
theorem create_new (source : TimeSource) {above : Option Context}
    (habove : above.map (·.id) = parent) (hr : ∀ c ∈ above, Reflects start h c) :
    Reflects start (.create parent timeout :: h)
      { id := made h
        parent := above.map (·.id)
        source := source
        deadline := ContextForest.earlier (timeout.map (clock start h + ·))
          (above.bind (·.deadline))
        isStopped := (above.bind (·.givenReason)).isSome
        givenReason := above.bind (·.givenReason) } := by
  have hunder : ∀ a, Under (.create parent timeout :: h) (made h) a ↔
      a = made h ∨ Above h parent a := fun a => under_create_new hl
  have hown : ownDeadline start (.create parent timeout :: h) (made h) =
      timeout.map (clock start h + ·) := if_pos rfl
  have hothers : ∀ a, Above h parent a →
      ownDeadline start (.create parent timeout :: h) a = ownDeadline start h a :=
    fun a ha => if_neg (Nat.ne_of_lt (hl.lt_made_of_above ha))
  obtain ⟨hdeadline, hreason⟩ := of_above habove hr
  refine ⟨habove.trans (if_pos rfl).symm, ?_, ?_, rfl⟩
  · rw [← hown]
    exact (hdeadline.congr (fun _ => Iff.rfl) hothers).earlier hunder
      fun a t ht => hl.isNaN_ownDeadline ht
  · refine Reason.cons (hreason.congr fun a r hmem => ?_) nofun
    have hne : a ≠ made h := Nat.ne_of_lt (hl.tail.lt_made hmem)
    exact ((hunder a).trans (or_iff_right hne)).symm

end Create

end Reflects

namespace Kept

/-- Nothing is wrong before anything happened. -/
theorem empty : Kept start [] :=
  ⟨rfl, rfl, nofun, nofun⟩

/-- What is kept true stays so when time passes. -/
theorem wait (hk : Kept start h) (now : Float) : Kept start (.wait now :: h) :=
  ⟨hk.ids, hk.next, fun c hc => (hk.reflects c hc).wait now, hk.below⟩

/-- What is kept true stays so when a context is cancelled. -/
theorem cancel (hk : Kept start h) {id : ContextId} (hid : id < made h) (reason : Text) :
    Kept start (.cancel id reason :: h) := by
  refine ⟨?_, hk.next, fun c' hc' => ?_, fun other hother i => ?_⟩
  · exact (ContextForest.map_id_cancel _ id _).trans hk.ids
  · obtain ⟨c, hc, rfl⟩ := ContextForest.exists_of_mem_cancel _ id _ hc'
    split
    · next hmem => exact (hk.reflects c hc).reached ((hk.below id hid c.id).1 hmem)
    · next hmem =>
      exact (hk.reflects c hc).spared fun hu => hmem ((hk.below id hid c.id).2 hu)
  · rw [forest, ContextForest.below_cancel]
    exact hk.below other hother i

section Create

variable {parent : Option ContextId} {timeout : Option Float} {c : Context}
  (hk : Kept start h) (hl : Lawful start (.create parent timeout :: h))
  (hcid : c.id = made h) (hcparent : c.parent = parent)
include hk hl hcid hcparent

/-- Cancelling an earlier context reaches a new one that is below it. -/
theorem mem_below_old {id : ContextId} (hid : id < made h) (i : ContextId) :
    i ∈ ContextForest.below [id] ((forest start h).contexts ++ [c]) ↔
      Under (.create parent timeout :: h) i id := by
  have hold := hk.below id hid
  have hnew := under_create_new hl (a := id)
  have hany : c.parent.any (ContextForest.below [id] (forest start h).contexts).contains = true ↔
      Above h parent id := by
    simp only [hcparent, Option.any_eq_true, List.contains_iff_mem, hold, Option.mem_def, Above]
  rw [ContextForest.below_append, hcid]
  constructor
  · intro hi
    have hcases : i = made h ∧ Above h parent id ∨ Under h i id := by
      split at hi
      · next hcond =>
        exact (List.mem_cons.1 hi).imp (fun hi => ⟨hi, hany.1 hcond⟩) (hold i).1
      · exact .inr ((hold i).1 hi)
    rcases hcases with ⟨rfl, habove⟩ | hu
    · exact hnew.2 (.inr habove)
    · exact (under_create_old hl (hl.tail.lt_made_of_under hid hu)).2 hu
  · intro hu
    rcases Nat.lt_succ_iff_lt_or_eq.1
      (hl.lt_made_of_under (Nat.lt_succ_of_lt hid) hu) with hi | rfl
    · have hmem := (hold i).2 ((under_create_old hl hi).1 hu)
      split
      · exact List.mem_cons_of_mem _ hmem
      · exact hmem
    · rw [if_pos (hany.2 ((hnew.1 hu).resolve_left (Nat.ne_of_lt hid)))]
      exact List.mem_cons_self

/-- Cancelling a new context reaches no other one. -/
theorem mem_below_new (i : ContextId) :
    i ∈ ContextForest.below [made h] ((forest start h).contexts ++ [c]) ↔
      Under (.create parent timeout :: h) i (made h) := by
  have hnone : ∀ d ∈ (forest start h).contexts ++ [c], ∀ p ∈ d.parent, p ∉ [made h] := by
    intro d hd p hp hmem
    obtain rfl := List.mem_singleton.1 hmem
    rcases List.mem_append.1 hd with hd | hd
    · have hstep := (hk.reflects d hd).parent.symm.trans hp
      exact absurd ((hl.tail.parentOf_lt hstep).2.trans (hk.lt_made hd)) (Nat.lt_irrefl _)
    · obtain rfl := List.mem_singleton.1 hd
      exact absurd (hl.1 _ (hcparent ▸ hp)) (Nat.lt_irrefl _)
  rw [ContextForest.below_of_forall_not_mem hnone, List.mem_singleton]
  constructor
  · rintro rfl
    exact .refl
  · intro hu
    exact Nat.le_antisymm
      (Nat.le_of_lt_succ (hl.lt_made_of_under (Nat.lt_succ_self _) hu)) (hl.le_of_under hu)

end Create

/-- What is kept true stays so when a context is made. -/
theorem create (hk : Kept start h) {parent : Option ContextId} {timeout : Option Float}
    (hl : Lawful start (.create parent timeout :: h)) :
    Kept start (.create parent timeout :: h) := by
  have hfind : ∀ p ∈ parent, ∃ c, (forest start h).find? p = some c ∧ c.id = p ∧
      Reflects start h c := fun p hp => hk.exists_find? (hl.1 p hp)
  obtain ⟨above, habove, hid, hr⟩ : ∃ above, parent.bind (forest start h).find? = above ∧
      above.map (·.id) = parent ∧ ∀ c ∈ above, Reflects start h c := by
    rcases parent with _ | p
    · exact ⟨none, rfl, rfl, nofun⟩
    · obtain ⟨c, hc, rfl, hr⟩ := hfind p rfl
      exact ⟨some c, hc, rfl, fun d hd => Option.some.inj hd ▸ hr⟩
  obtain ⟨c, hc, hcid, hcparent, hcr⟩ : ∃ c : Context,
      forest start (.create parent timeout :: h) =
        ⟨(forest start h).contexts ++ [c], made h + 1⟩ ∧
      c.id = made h ∧ c.parent = parent ∧ Reflects start (.create parent timeout :: h) c := by
    refine ⟨_, ?_, rfl, hid, Reflects.create_new hl .engine hid hr⟩
    simp only [forest, ContextForest.create, habove, hk.next]
  refine ⟨?_, by rw [hc]; rfl, ?_, ?_⟩
  · rw [hc, List.map_append, hk.ids, List.map_singleton, hcid]
    exact List.range_succ.symm
  · rw [hc]
    intro d hd
    rcases List.mem_append.1 hd with hd | hd
    · exact (hk.reflects d hd).create_old hl (hk.lt_made hd)
    · exact List.mem_singleton.1 hd ▸ hcr
  · rw [hc]
    intro id hid i
    rcases Nat.lt_succ_iff_lt_or_eq.1 hid with hid | rfl
    · exact hk.mem_below_old hl hcid hcparent hid i
    · exact hk.mem_below_new hl hcid hcparent i

end Kept

/-- **After a history the contexts are what it says they should be.** -/
theorem kept (hl : Lawful start h) : Kept start h := by
  induction h with
  | nil => exact .empty
  | cons e rest ih =>
    cases e with
    | create parent timeout => exact (ih hl.tail).create hl
    | cancel id reason => exact (ih hl.tail).cancel hl.1 reason
    | wait now => exact (ih hl.tail).wait now

end ContextHistory

end Gatehouse
