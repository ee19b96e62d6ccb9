import Gatehouse.Proofs.Context.Cancellation
import Gatehouse.Proofs.Context.Parted

/-!
# Letting go of a context

Links between contexts hold only as long as the contexts do.  A host that lets go of a context
(`ContextHistory.letGo`) does not change what the contexts beside it and above it answer, whatever
happens later.  But what was made below it is a root from then on: a call to cancel a context from
above does not reach it.  Main statement: nobody notices that a context was let go as long as none
above it is cancelled, and nobody ever notices exactly if there is none above it, or if everything
below it was called off by then (`ContextHistory.unnoticed_exact`).
-/

namespace Gatehouse

open Relation (ReflTransGen)

/-- What a context answers: whether it is cancelled, why, and how going on under it fails. -/
def Context.answers (c : Context) (now : Float) : Bool × Option Value × Except Fault Unit :=
  (c.isCancelled now, c.reason now, c.check now)

/-- A context that was stopped in both forests or in neither answers the same in both. -/
theorem Context.Alike.answers_eq {x : ContextId} {S : ContextId → Prop} {c c' : Context}
    (h : c.Alike x S c') (hS : S c.id) (now : Float) : c'.answers now = c.answers now := by
  have hcancelled : c'.isCancelled now = c.isCancelled now := by
    rw [isCancelled, isCancelled, isExpired, isExpired, h.deadline, h.isStopped hS]
  have hreason : c'.reason now = c.reason now := by
    rw [reason, reason, h.givenReason hS, hcancelled]
  rw [answers, answers, check, check, hcancelled, hreason]

/-- A call leaves alone what it does not reach. -/
theorem ContextForest.find?_cancel_of_not_mem {f : ContextForest} {id id' : ContextId}
    {reason : Option Value} (h : id ∉ below [id'] f.contexts) :
    (f.cancel id' reason).find? id = f.find? id := by
  have hid : (fun c : Context => c.id == id) ∘ (fun c =>
      if (below [id'] f.contexts).contains c.id then stopped reason c else c) =
        fun c => c.id == id := by
    funext c
    rw [Function.comp_apply, id_ite_stopped]
  rw [find?, cancel, List.find?_map, hid, ← find?]
  rcases hc : f.find? id with _ | c
  · rfl
  · have hcid : c.id = id := beq_iff_eq.1 (List.find?_some hc :)
    simp [hcid, h]

/-- Where all contexts are held, none is released. -/
theorem ContextForest.release_eq_self {f : ContextForest} {held : List ContextId}
    (h : ∀ c ∈ f.contexts, c.id ∈ held ∧ ∀ p ∈ c.parent, p ∈ held) : f.release held = f := by
  have hall : (f.contexts.filter fun c => held.contains c.id) = f.contexts :=
    List.filter_eq_self.2 fun c hc => List.contains_iff_mem.2 (h c hc).1
  have hlinks : f.contexts.map (fun c => { c with parent := c.parent.filter held.contains }) =
      f.contexts := by
    refine (List.map_congr_left fun c hc => ?_).trans (List.map_id _)
    have hlink : c.parent.filter held.contains = c.parent := by
      rcases hparent : c.parent with _ | p
      · rfl
      · simp [Option.filter_some, (h c hc).2 p hparent]
    rw [hlink, id]
  rw [release, hall, hlinks]

namespace ContextHistory

/-! ### Two runs -/

/-- All contexts that were made but one. -/
def others (h : List ContextEvent) (x : ContextId) : List ContextId :=
  (List.range (made h)).filter fun i => decide (i ≠ x)

/-- **The contexts after a history, where one of them was let go** after the earlier part.  All
others stay held, so no more are released (`release_letGo`). -/
def letGo (start : Float) (earlier : List ContextEvent) (x : ContextId) :
    List ContextEvent → ContextForest
  | [] => (forest start earlier).release (others earlier x)
  | .create parent timeout :: later =>
    ((letGo start earlier x later).create .engine parent timeout
      (clock start (later ++ earlier))).1
  | .cancel id reason :: later =>
    (letGo start earlier x later).cancel id (some (.text reason))
  | .wait _ :: later => letGo start earlier x later

/-- Nothing is done with a context any more: it is not cancelled, and none is made below it. -/
def Idle (x : ContextId) (later : List ContextEvent) : Prop :=
  (∀ reason, .cancel x reason ∉ later) ∧ ∀ timeout, .create (some x) timeout ∉ later

/-- What the context of a number answers, if there is one. -/
def answers (f : ContextForest) (now : Float) (y : ContextId) :
    Option (Bool × Option Value × Except Fault Unit) :=
  (f.find? y).map fun c => c.answers now

/-- A context answers as if another one had not been let go. -/
def SameAnswers (start : Float) (earlier : List ContextEvent) (x : ContextId)
    (later : List ContextEvent) (y : ContextId) : Prop :=
  answers (letGo start earlier x later) (clock start (later ++ earlier)) y =
    answers (forest start (later ++ earlier)) (clock start (later ++ earlier)) y

/-- **Nobody notices that a context was let go.** -/
def Unnoticed (start : Float) (earlier : List ContextEvent) (x : ContextId)
    (later : List ContextEvent) : Prop :=
  ∀ y, y ≠ x → SameAnswers start earlier x later y

/-- A context was called off: there was a call to cancel it or one above it. -/
def Called (h : List ContextEvent) (y : ContextId) : Prop :=
  ∃ a reason, .cancel a reason ∈ h ∧ Under h y a

/-- A context can be let go without notice: no context above it is cancelled later on, or everything
below it was called off already. -/
def Harmless (earlier : List ContextEvent) (x : ContextId) (later : List ContextEvent) : Prop :=
  NoCall (Under earlier x) later ∨ ∀ y, y ≠ x → Under earlier y x → Called earlier y

variable {start : Float} {earlier later h : List ContextEvent} {e : ContextEvent}
  {x y a : ContextId} {reason : Text}

/-! ### What later events leave as it is -/

/-- The others are all contexts made so far but one. -/
theorem mem_others_iff (hy : y < made h) : y ∈ others h x ↔ y ≠ x := by
  simp [others, hy]

/-- Where nothing happens, nothing is done with a context. -/
theorem Idle.nil : Idle x [] := by
  simp [Idle]

/-- What is idle through a history is so before its last event. -/
theorem Idle.tail (h : Idle x (e :: later)) : Idle x later :=
  ⟨fun r hr => h.1 r (List.mem_cons_of_mem _ hr), fun t ht => h.2 t (List.mem_cons_of_mem _ ht)⟩

/-- What is harmless through a history is so before its last event. -/
theorem Harmless.tail (h : Harmless earlier x (e :: later)) : Harmless earlier x later :=
  h.imp_left fun hno => (noCall_cons.1 hno).2

/-- The beginning of a lawful history is lawful. -/
theorem Lawful.of_append (hl : Lawful start (later ++ earlier)) : Lawful start earlier := by
  induction later with
  | nil => exact hl
  | cons _ _ ih => exact ih hl.tail

/-- A context that was made is there for good. -/
theorem lt_made_append (hx : x < made earlier) (later : List ContextEvent) :
    x < made (later ++ earlier) := by
  induction later with
  | nil => exact hx
  | cons e later ih =>
    cases e with
    | create => exact Nat.lt_succ_of_lt ih
    | cancel => exact ih
    | wait => exact ih

/-- Later events put no context above one that is there. -/
theorem under_append (hl : Lawful start (later ++ earlier)) (hx : x < made earlier) :
    Under (later ++ earlier) x a ↔ Under earlier x a := by
  induction later with
  | nil => exact Iff.rfl
  | cons e later ih =>
    cases e with
    | create => exact (under_create_old hl (lt_made_append hx later)).trans (ih hl.tail)
    | cancel => exact ih hl.tail
    | wait => exact ih hl.tail

/-- What is under all that was above a context called off is called off, too. -/
theorem Called.cons {z : ContextId} (hy : Called h y)
    (hu : ∀ a, Under h y a → Under (e :: h) z a) : Called (e :: h) z := by
  obtain ⟨a, r, hmem, ha⟩ := hy
  exact ⟨a, r, List.mem_cons_of_mem _ hmem, hu a ha⟩

/-- What is made below contexts that were called off is called off with them. -/
theorem called_of_under (hx : x < made earlier)
    (hcalled : ∀ y, y ≠ x → Under earlier y x → Called earlier y)
    (hl : Lawful start (later ++ earlier)) (hidle : Idle x later) (hne : y ≠ x)
    (hu : Under (later ++ earlier) y x) : Called (later ++ earlier) y := by
  induction later generalizing y with
  | nil => exact hcalled y hne hu
  | cons e later ih =>
    have hrest := fun {y} => @ih y hl.tail hidle.tail
    have hmade := lt_made_append hx later
    cases e with
    | create parent timeout =>
      rcases Nat.lt_succ_iff_lt_or_eq.1
        (hl.lt_made_of_under (Nat.lt_succ_of_lt hmade) hu) with hy | rfl
      · exact (hrest hne ((under_create_old hl hy).1 hu)).cons fun a => (under_create_old hl hy).2
      · obtain ⟨p, hp, hpx⟩ := ((under_create_new hl).1 hu).resolve_left (Nat.ne_of_lt hmade)
        have hne : p ≠ x := by
          rintro rfl
          exact hidle.2 timeout (hp ▸ List.mem_cons_self)
        exact (hrest hne hpx).cons fun a ha => (under_create_new hl).2 (.inr ⟨p, hp, ha⟩)
    | cancel => exact (hrest hne hu).cons fun _ => id
    | wait => exact (hrest hne hu).cons fun _ => id

/-- A context that was called off is not changed by further calls. -/
theorem Reflects.stopped_of_called {c : Context} (hr : Reflects start h c) (hc : Called h c.id)
    (reason : Option Value) : ContextForest.stopped reason c = c := by
  have hstopped : c.isStopped = true := hr.isStopped_iff.2 hc
  obtain ⟨v, hv⟩ := Option.isSome_iff_exists.1 (hr.stopped.symm.trans hstopped)
  cases c
  simp_all [ContextForest.stopped]

/-! ### The two runs side by side -/

/-- Nothing differs but what is below the context let go, or not even that where letting go is
harmless. -/
def Untouched (earlier : List ContextEvent) (x : ContextId) (later : List ContextEvent)
    (y : ContextId) : Prop :=
  ¬ Under (later ++ earlier) y x ∨ Harmless earlier x later

namespace Kept

/-- What is made below something that is below `x` is below `x`. -/
theorem under_of_parent (hk : Kept start h) {c : Context} (hc : c ∈ (forest start h).contexts)
    {p : ContextId} (hp : p ∈ c.parent) (hu : Under h p x) : Under h c.id x :=
  .head ((hk.reflects c hc).parent.symm.trans hp) hu

/-- What is below `x` is `x`, or it was made below something that is below `x`. -/
theorem parent_under (hk : Kept start h) {c : Context} (hc : c ∈ (forest start h).contexts)
    (hu : Under h c.id x) : c.id = x ∨ ∃ p ∈ c.parent, Under h p x := by
  rcases ReflTransGen.cases_head hu with hid | ⟨p, hstep, hp⟩
  · exact .inl hid
  · exact .inr ⟨p, (hk.reflects c hc).parent.trans hstep, hp⟩

/-- What a context was made below was made. -/
theorem lt_made_of_parent (hk : Kept start h) (hl : Lawful start h) {c : Context}
    (hc : c ∈ (forest start h).contexts) {p : ContextId} (hp : p ∈ c.parent) : p < made h :=
  (hl.parentOf_lt ((hk.reflects c hc).parent.symm.trans hp)).2.trans (hk.lt_made hc)

/-- The context is let go. -/
theorem parted_release (hk : Kept start h) (hl : Lawful start h) (S : ContextId → Prop) :
    ContextForest.Parted x S (forest start h).contexts
      ((forest start h).release (others h x)).contexts :=
  .release (fun _ hc => mem_others_iff (hk.lt_made hc))
    fun _ hc _ hp => mem_others_iff (hk.lt_made_of_parent hl hc hp)

end Kept

/-- **The two runs side by side:** they differ only in what is below the context let go. -/
structure Beside (start : Float) (earlier : List ContextEvent) (x : ContextId)
    (later : List ContextEvent) : Prop where
  /-- The next context has the same number. -/
  next : (letGo start earlier x later).next = (forest start (later ++ earlier)).next
  /-- The contexts. -/
  contexts : ContextForest.Parted x (Untouched earlier x later)
    (forest start (later ++ earlier)).contexts (letGo start earlier x later).contexts

namespace Beside

/-- Letting time pass keeps the two histories side by side. -/
theorem wait (hb : Beside start earlier x later) (now : Float) :
    Beside start earlier x (.wait now :: later) :=
  ⟨hb.next, hb.contexts.imp fun _ _ => Or.imp_right Harmless.tail⟩

/-- A context made in both runs is not below the one let go if what it was made below is not. -/
theorem create (hb : Beside start earlier x later) {parent : Option ContextId}
    {timeout : Option Float} (hl : Lawful start (.create parent timeout :: (later ++ earlier)))
    (hx : x < made earlier) (hparent : ∀ p ∈ parent, p ≠ x) :
    Beside start earlier x (.create parent timeout :: later) := by
  have hk := kept hl.tail
  have hold : ∀ c ∈ (forest start (later ++ earlier)).contexts,
      Untouched earlier x (.create parent timeout :: later) c.id →
        Untouched earlier x later c.id :=
    fun c hc => Or.imp (mt (under_create_old hl (hk.lt_made hc)).2) Harmless.tail
  refine ⟨congrArg (· + 1) hb.next, .create (hb.contexts.imp hold) hb.next ?_
    (fun p hp => ⟨hparent p hp, ?_⟩) .engine timeout _⟩
  · exact hk.next ▸ Nat.ne_of_gt (lt_made_append hx later)
  · rw [hk.next]
    exact Or.imp_left (mt fun hu => .head ((if_pos rfl).trans hp) hu)

/-- A call is heard in both runs, unless it is on a context above the one let go. -/
theorem cancel (hb : Beside start earlier x later) {reason : Text}
    (hl : Lawful start (.cancel a reason :: (later ++ earlier))) (hx : x < made earlier)
    (hidle : Idle x later) : Beside start earlier x (.cancel a reason :: later) := by
  have hk := kept hl.tail
  have hcut : ContextForest.Cut x (fun y => Under (later ++ earlier) y x)
      (ContextForest.below [a] (forest start (later ++ earlier)).contexts)
      (ContextForest.below [a] (letGo start earlier x later).contexts) :=
    hb.contexts.cut_below .refl (fun c hc p hp => hk.under_of_parent hc hp) .refl
  have hold : ∀ c ∈ (forest start (later ++ earlier)).contexts,
      Untouched earlier x (.cancel a reason :: later) c.id → Untouched earlier x later c.id :=
    fun _ _ => Or.imp_right Harmless.tail
  refine ⟨hb.next, (hb.contexts.imp hold).map_stopped _ fun c hc hne hS => ?_⟩
  by_cases hmem' : c.id ∈ ContextForest.below [a] (letGo start earlier x later).contexts
  · exact .inl (iff_of_true (hcut.mem _ hmem') hmem')
  by_cases hmem : c.id ∈ ContextForest.below [a] (forest start (later ++ earlier)).contexts
  · -- the call got here through the context let go, so it is on one above that
    obtain ⟨hunder, hxa⟩ := (hcut.through _ hmem hne).resolve_left hmem'
    have habove : Under earlier x a := (under_append hl.tail hx).1 ((hk.below a hl.1 x).1 hxa)
    rcases hS.resolve_left (not_not_intro hunder) with hno | hcalled
    · exact absurd habove (hno a reason List.mem_cons_self)
    · exact .inr ((hk.reflects c hc).stopped_of_called
        (called_of_under hx hcalled hl.tail hidle hne hunder) _)
  · exact .inl (iff_of_false hmem hmem')

end Beside

/-- **After the same events the two runs are side by side.** -/
theorem beside (hx : x < made earlier) (hl : Lawful start (later ++ earlier))
    (hidle : Idle x later) : Beside start earlier x later := by
  induction later with
  | nil => exact ⟨rfl, (kept hl).parted_release hl _⟩
  | cons e later ih =>
    have hb := ih hl.tail hidle.tail
    cases e with
    | create parent timeout =>
      refine hb.create hl hx ?_
      rintro _ rfl rfl
      exact hidle.2 timeout List.mem_cons_self
    | cancel a reason => exact hb.cancel hl hx hidle.tail
    | wait now => exact hb.wait now

/-- Nothing more is released later on: the other contexts are held, and so is what they were made
below. -/
theorem release_letGo (hx : x < made earlier) (hl : Lawful start (later ++ earlier))
    (hidle : Idle x later) :
    (letGo start earlier x later).release (others (later ++ earlier) x) =
      letGo start earlier x later := by
  have hk := kept hl
  refine ContextForest.release_eq_self fun c' hc' => ?_
  obtain ⟨c, hc, hne, halike⟩ := (beside hx hl hidle).contexts.exists_of_mem hc'
  rw [halike.id, halike.parent]
  refine ⟨(mem_others_iff (hk.lt_made hc)).2 hne, fun p hp => ?_⟩
  obtain ⟨hp, hpx⟩ := Option.mem_filter_iff.1 hp
  exact (mem_others_iff (hk.lt_made_of_parent hl hc hp)).2 (of_decide_eq_true hpx)

/-! ### What is noticed -/

/-- What is not touched answers the same. -/
theorem sameAnswers_of_untouched (hx : x < made earlier) (hl : Lawful start (later ++ earlier))
    (hidle : Idle x later) (hne : y ≠ x) (h : Untouched earlier x later y) :
    SameAnswers start earlier x later y := by
  unfold SameAnswers answers ContextForest.find?
  rcases (beside hx hl hidle).contexts.find? hne with ⟨hc, hc'⟩ | ⟨c, c', hc, hc', rfl, halike⟩
  · rw [hc, hc']
  · rw [hc, hc', Option.map_some, Option.map_some, halike.answers_eq h]

/-- **A call from above is not heard below the context let go.** -/
theorem find?_letGo_cancel (hx : x < made earlier) (hl : Lawful start (later ++ earlier))
    (hidle : Idle x later) (ha : Under earlier x a) (hax : a ≠ x)
    (hu : Under (later ++ earlier) y x) :
    (letGo start earlier x (.cancel a reason :: later)).find? y =
      (letGo start earlier x later).find? y := by
  have hk := kept hl
  have hnot : ¬ Under (later ++ earlier) a x := fun hax' =>
    hax (Nat.le_antisymm (hl.of_append.le_of_under ha) (hl.le_of_under hax'))
  refine ContextForest.find?_cancel_of_not_mem fun hmem => ?_
  exact (beside hx hl hidle).contexts.not_mem_below (D := fun y => Under (later ++ earlier) y x)
    (fun c hc => hk.parent_under hc) (List.forall_mem_singleton.2 hnot) y hmem hu

/-- What was not called off has no reason when a context above it is let go. -/
theorem exists_find?_letGo (hl : Lawful start earlier) (hy : y < made earlier) (hyx : y ≠ x)
    (hnot : ¬ Called earlier y) :
    ∃ c, (letGo start earlier x []).find? y = some c ∧ c.givenReason = none := by
  obtain ⟨d, hd, rfl, hr⟩ := (kept hl).exists_find? hy
  rcases ((kept hl).parted_release hl fun _ => True).find? hyx with
    ⟨hno, -⟩ | ⟨d', c, hd', hc, -, halike⟩
  · cases hd.symm.trans hno
  · obtain rfl := Option.some.inj (hd.symm.trans hd')
    refine ⟨c, hc, (halike.givenReason trivial).trans (hr.givenReason_eq_none_iff.2 ?_)⟩
    exact fun a reason hmem hu => hnot ⟨a, reason, hmem, hu⟩

/-- What is below the context let go, and was not called off yet, notices the first call from
above. -/
theorem not_sameAnswers_of_cancel (hl : Lawful start earlier) (hx : x < made earlier)
    (ha : Under earlier x a) (hax : a ≠ x) (hu : Under earlier y x) (hyx : y ≠ x)
    (hnot : ¬ Called earlier y) (hreason : reason ≠ Context.deadlineExceeded) :
    ¬ SameAnswers start earlier x [.cancel a reason] y := by
  have hl' : Lawful start ([.cancel a reason] ++ earlier) :=
    ⟨(hl.le_of_under ha).trans_lt hx, hl⟩
  have hy : y < made earlier := hl.lt_made_of_under hx hu
  -- the context that is kept has the reason of the call
  obtain ⟨c, hc, rfl, hr⟩ := (kept hl').exists_find? hy
  have hkept : c.reason (clock start ([.cancel a reason] ++ earlier)) = some (.text reason) := by
    rw [Context.reason, hr.givenReason_of_firstCall]
    exact ⟨[], a, earlier, rfl, hu.trans ha, fun b r hmem hb => hnot ⟨b, r, hmem, hb⟩⟩
  -- without the context let go it is as it was before, and has none
  have hsame : (letGo start earlier x [.cancel a reason]).find? c.id =
      (letGo start earlier x []).find? c.id := find?_letGo_cancel hx hl .nil ha hax hu
  obtain ⟨c', hc', hnone⟩ := exists_find?_letGo hl hy hyx hnot
  intro hanswers
  rw [SameAnswers, answers, answers, hsame, hc', hc, Option.map_some, Option.map_some] at hanswers
  have heq : c'.reason (clock start ([.cancel a reason] ++ earlier)) = some (.text reason) :=
    (congrArg (fun r => r.2.1) (Option.some.inj hanswers)).trans hkept
  rw [Context.reason, hnone] at heq
  dsimp only at heq
  split at heq
  · exact hreason (Value.text.inj (Option.some.inj heq)).symm
  · cases heq

/-- **Letting go of a context.**
* Whatever happens later, a context that is not below the one let go answers as if that was kept.
* So do all of them as long as nothing above the one let go is cancelled, or if everything below it
  was called off by then.
* But a call to cancel what is above the one let go changes nothing below that.

So nobody can ever notice exactly if there is nothing above the context let go, or everything below
it was called off by then. -/
theorem unnoticed_exact (hl : Lawful start earlier) (hx : x < made earlier) :
    (∀ later, Lawful start (later ++ earlier) → Idle x later →
      (∀ y, ¬ Under (later ++ earlier) y x → SameAnswers start earlier x later y) ∧
      (Harmless earlier x later → Unnoticed start earlier x later) ∧
      ∀ a reason y, Under earlier x a → a ≠ x → Under (later ++ earlier) y x →
        (letGo start earlier x (.cancel a reason :: later)).find? y =
          (letGo start earlier x later).find? y) ∧
    ((∀ later, Lawful start (later ++ earlier) → Idle x later →
        Unnoticed start earlier x later) ↔
      parentOf earlier x = none ∨ ∀ y, y ≠ x → Under earlier y x → Called earlier y) := by
  have hharmless : ∀ later, Lawful start (later ++ earlier) → Idle x later →
      Harmless earlier x later → Unnoticed start earlier x later :=
    fun later hlater hidle h y hne => sameAnswers_of_untouched hx hlater hidle hne (.inr h)
  refine ⟨fun later hlater hidle => ⟨fun y hy => ?_, hharmless later hlater hidle,
    fun a reason y ha hax => find?_letGo_cancel hx hlater hidle ha hax⟩, ?_, ?_⟩
  · have hne : y ≠ x := by
      rintro rfl
      exact hy .refl
    exact sameAnswers_of_untouched hx hlater hidle hne (.inl hy)
  · intro hall
    by_contra! hnot
    obtain ⟨habove, y, hyx, hu, hcalled⟩ := hnot
    obtain ⟨p, hp⟩ := Option.ne_none_iff_exists'.1 habove
    have hpx : p < x := (hl.parentOf_lt hp).2
    have hlater : Lawful start ([.cancel p "stop"] ++ earlier) := ⟨hpx.trans hx, hl⟩
    have hidle : Idle x [.cancel p "stop"] := by
      simp [Idle, Nat.ne_of_gt hpx]
    exact not_sameAnswers_of_cancel hl hx (.single hp) (Nat.ne_of_lt hpx) hu hyx hcalled
      (by decide) (hall _ hlater hidle y hyx)
  · intro hroot later hlater hidle
    refine hharmless later hlater hidle (hroot.imp_left fun hnone a reason hmem ha => ?_)
    rcases ReflTransGen.cases_head ha with rfl | ⟨p, hp, -⟩
    · exact hidle.1 reason hmem
    · cases hnone.symm.trans hp

/-- A request, a lookup in it and a second lookup in that one. -/
def chain : List ContextEvent :=
  [.create (some 1) none, .create (some 0) none, .create none none]

/-- The chain of three contexts is a lawful history. -/
theorem lawful_chain : Lawful 0.0 chain := by
  refine ⟨by decide, nofun, by decide, nofun, nofun, nofun, trivial⟩

/-- Nobody notices that the first lookup was let go when the second one is cancelled by itself.  But
somebody may notice later. -/
theorem unnoticed_chain :
    Unnoticed 0.0 chain 1 [.cancel 2 "enough"] ∧
      ¬ ∀ later, Lawful 0.0 (later ++ chain) → Idle 1 later → Unnoticed 0.0 chain 1 later := by
  have hexact := unnoticed_exact (x := 1) lawful_chain (by decide)
  have hunder : Under chain 2 1 := .single rfl
  constructor
  · refine (hexact.1 [.cancel 2 "enough"] ⟨by decide, lawful_chain⟩ (by simp [Idle])).2.1 (.inl ?_)
    intro a reason hmem ha
    obtain ⟨rfl, -⟩ : a = 2 ∧ reason = "enough" := by simpa using hmem
    exact absurd (lawful_chain.le_of_under ha) (by decide)
  · rw [hexact.2]
    rintro (hroot | hcalled)
    · cases hroot
    · obtain ⟨a, reason, hmem, -⟩ := hcalled 2 (by decide) hunder
      simp [chain] at hmem

/-- **A grandchild goes on.**  When the request is cancelled, the second lookup is cancelled with it
as long as the first one is there.  Where the first one was let go, the second one is never
stopped. -/
theorem noticed_chain :
    Lawful 0.0 ([.cancel 0 "a"] ++ chain) ∧ 1 < made chain ∧ Idle 1 [.cancel 0 "a"] ∧
      answers (forest 0.0 ([.cancel 0 "a"] ++ chain)) 0.0 2 =
        some (true, some (.text "a"), .error (.cancelled (.text "a"))) ∧
      answers (letGo 0.0 chain 1 [.cancel 0 "a"]) 0.0 2 = some (false, none, .ok ()) ∧
      ¬ Unnoticed 0.0 chain 1 [.cancel 0 "a"] := by
  have hkept : answers (forest 0.0 ([.cancel 0 "a"] ++ chain)) 0.0 2 =
      some (true, some (.text "a"), .error (.cancelled (.text "a"))) := by rfl
  have hletGo : answers (letGo 0.0 chain 1 [.cancel 0 "a"]) 0.0 2 = some (false, none, .ok ()) := by
    rfl
  refine ⟨⟨by decide, lawful_chain⟩, by decide, by simp [Idle], hkept, hletGo, fun h => ?_⟩
  have hsame : answers (letGo 0.0 chain 1 [.cancel 0 "a"]) 0.0 2 =
      answers (forest 0.0 ([.cancel 0 "a"] ++ chain)) 0.0 2 := h 2 (by decide)
  rw [hkept, hletGo] at hsame
  cases hsame

end ContextHistory

end Gatehouse
