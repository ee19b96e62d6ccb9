import Gatehouse.Proofs.Context.Kept
import Gatehouse.Proofs.Engine.Cancellation

/-!
# Cancellation is exact

Whether a context is cancelled, and why, follows from the calls to cancel it and those above it and
from the deadlines that they were given.  Main statement: `ContextHistory.isCancelled_exact`.
-/

namespace Gatehouse

namespace ContextHistory

variable {start : Float} {h : List ContextEvent}

namespace Reflects

variable {c : Context}

/-- A context has expired exactly if the least of the deadlines has passed. -/
theorem isExpired_iff (hr : Reflects start h c) (now : Float) :
    c.isExpired now = true ↔ ∃ t, LeastDeadline start h c.id (some t) ∧ t ≤ now := by
  have hdeadline := hr.deadline
  unfold Context.isExpired
  cases hc : c.deadline with
  | none =>
    rw [hc] at hdeadline
    refine iff_of_false nofun ?_
    rintro ⟨t, ⟨⟨a, hu, ht⟩, -⟩, -⟩
    cases (hdeadline a hu).symm.trans ht
  | some t =>
    rw [hc] at hdeadline
    dsimp only
    rw [decide_eq_true_iff]
    constructor
    · exact fun hle => ⟨t, hdeadline, hle⟩
    · rintro ⟨t', ⟨⟨a, hu, ht'⟩, -⟩, hle⟩
      exact Decimal.le_trans (hdeadline.2 a t' hu ht') hle

/-- A context has no reason exactly if there was no call on it or on one above it. -/
theorem givenReason_eq_none_iff (hr : Reflects start h c) :
    c.givenReason = none ↔ NoCall (Under h c.id) h := by
  have hreason := hr.reason
  cases hc : c.givenReason with
  | none =>
    rw [hc] at hreason
    exact iff_of_true rfl hreason
  | some v =>
    rw [hc] at hreason
    obtain ⟨_, -, hfirst⟩ := hreason
    exact iff_of_false nofun hfirst.not_noCall

/-- A context was stopped exactly if there was a call on it or on one above it. -/
theorem isStopped_iff (hr : Reflects start h c) :
    c.isStopped = true ↔ ∃ a reason, .cancel a reason ∈ h ∧ Under h c.id a := by
  rw [hr.stopped, Option.isSome_iff_ne_none, ne_eq, hr.givenReason_eq_none_iff]
  simp only [NoCall, not_forall, not_not, exists_prop]

/-- A context keeps the reason of the first call. -/
theorem givenReason_of_firstCall (hr : Reflects start h c) {reason : Text}
    (hfirst : FirstCall (Under h c.id) h reason) : c.givenReason = some (.text reason) := by
  have hreason := hr.reason
  obtain ⟨v, hv⟩ := Option.ne_none_iff_exists'.1 fun hnone =>
    hfirst.not_noCall (hr.givenReason_eq_none_iff.1 hnone)
  rw [hv] at hreason
  obtain ⟨reason', rfl, hfirst'⟩ := hreason
  rw [hv, hfirst.unique hfirst']

/-- A context expires no later than any deadline that it or one above it was given. -/
theorem exists_deadline_le (hr : Reflects start h c) {a : ContextId} {t : Float}
    (hu : Under h c.id a) (ht : ownDeadline start h a = some t) :
    ∃ t', c.deadline = some t' ∧ t' ≤ t := by
  have hdeadline := hr.deadline
  cases hc : c.deadline with
  | none =>
    rw [hc] at hdeadline
    cases (hdeadline a hu).symm.trans ht
  | some t' =>
    rw [hc] at hdeadline
    exact ⟨t', rfl, hdeadline.2 a t hu ht⟩

end Reflects

/-- What is cancelled stays so, whatever happens later. -/
theorem exists_isCancelled_append {id : ContextId} {c : Context}
    (hc : (forest start h).find? id = some c) (hcancelled : c.isCancelled (clock start h) = true)
    {later : List ContextEvent} (hl : Lawful start (later ++ h)) :
    ∃ c', (forest start (later ++ h)).find? id = some c' ∧
      c'.isCancelled (clock start (later ++ h)) = true := by
  induction later with
  | nil => exact ⟨c, hc, hcancelled⟩
  | cons e later ih =>
    obtain ⟨c', hc', hcancelled'⟩ := ih hl.tail
    cases e with
    | create parent timeout => exact ⟨c', ContextForest.find?_create hc' .., hcancelled'⟩
    | cancel id' reason =>
      rcases ContextForest.find?_cancel hc' id' (some (.text reason)) with hsame | hstopped
      · exact ⟨c', hsame, hcancelled'⟩
      · exact ⟨_, hstopped, rfl⟩
    | wait now => exact ⟨c', hc', Context.isCancelled_mono hl.1 hcancelled'⟩

/-- **Cancellation is exact.**  After any history in which every context is kept, a context is
cancelled exactly if there was a call to cancel it or one above it, before or after it was made, or
if the least of the deadlines that it and those above it were given has passed.  Its reason is that
of the first such call, or else that the deadline was exceeded, if it was.  The deadline that it
records is that least one, so it is not later than the deadline of the context above it.  And what
is cancelled stays so. -/
theorem isCancelled_exact (hl : Lawful start h) {id : ContextId} (hid : id < made h) :
    ∃ c, (forest start h).find? id = some c ∧
      (c.isCancelled (clock start h) = true ↔
        (∃ a reason, .cancel a reason ∈ h ∧ Under h id a) ∨
          ∃ t, LeastDeadline start h id (some t) ∧ t ≤ clock start h) ∧
      (∀ reason, FirstCall (Under h id) h reason →
        c.reason (clock start h) = some (.text reason)) ∧
      (NoCall (Under h id) h →
        ((∃ t, LeastDeadline start h id (some t) ∧ t ≤ clock start h) →
          c.reason (clock start h) = some Context.deadlineExceeded) ∧
        ((¬ ∃ t, LeastDeadline start h id (some t) ∧ t ≤ clock start h) →
          c.reason (clock start h) = none)) ∧
      LeastDeadline start h id c.deadline ∧
      (∀ p, parentOf h id = some p → ∃ above, (forest start h).find? p = some above ∧
        ∀ t, above.deadline = some t → ∃ t', c.deadline = some t' ∧ t' ≤ t) ∧
      (c.isCancelled (clock start h) = true → ∀ later, Lawful start (later ++ h) →
        ∃ c', (forest start (later ++ h)).find? id = some c' ∧
          c'.isCancelled (clock start (later ++ h)) = true) := by
  obtain ⟨c, hc, rfl, hr⟩ := (kept hl).exists_find? hid
  have hcancelled : c.isCancelled (clock start h) = true ↔
      (∃ a reason, .cancel a reason ∈ h ∧ Under h c.id a) ∨
        ∃ t, LeastDeadline start h c.id (some t) ∧ t ≤ clock start h := by
    rw [Context.isCancelled, Bool.or_eq_true, hr.isStopped_iff, hr.isExpired_iff]
  refine ⟨c, hc, hcancelled, fun reason hfirst => ?_, fun hno => ?_, hr.deadline,
    fun p hp => ?_, fun hstill later hlater => exists_isCancelled_append hc hstill hlater⟩
  · rw [Context.reason, hr.givenReason_of_firstCall hfirst]
  · have hiff : c.isCancelled (clock start h) = true ↔
        ∃ t, LeastDeadline start h c.id (some t) ∧ t ≤ clock start h := by
      refine hcancelled.trans (or_iff_right ?_)
      rintro ⟨a, reason, hmem, hu⟩
      exact hno a reason hmem hu
    rw [Context.reason, hr.givenReason_eq_none_iff.2 hno, ← hiff]
    exact ⟨fun hpassed => if_pos hpassed, fun hnot => if_neg hnot⟩
  · obtain ⟨above, hfind, rfl, habove⟩ := (kept hl).exists_find? ((hl.parentOf_lt hp).2.trans hid)
    refine ⟨above, hfind, fun t ht => ?_⟩
    have hleast := habove.deadline
    rw [ht] at hleast
    obtain ⟨⟨a, hu, hown⟩, -⟩ := hleast
    exact hr.exists_deadline_le (.head hp hu) hown

/-- A request with five seconds, and a lookup in it with two; the client goes away, a second lookup
begins below the first one, and seven seconds pass. -/
def visit : List ContextEvent :=
  [.wait 7.0, .create (some 1) none, .cancel 0 "client went away", .create (some 0) (some 2.0),
    .create none (some 5.0)]

/-- The second lookup is cancelled because the client went away before it began. -/
theorem isCancelled_visit : Lawful 0.0 visit ∧
    ∃ c, (forest 0.0 visit).find? 2 = some c ∧
      c.isCancelled (clock 0.0 visit) = true ∧
      c.reason (clock 0.0 visit) = some (.text "client went away") := by
  have hl : Lawful 0.0 visit := by
    refine ⟨by decide +kernel, by decide, nofun, by decide, by decide, ?_, nofun, ?_, trivial⟩
    · rintro s ⟨⟩
      decide +kernel
    · rintro s ⟨⟩
      decide +kernel
  have hmade : 2 < made visit := by decide
  obtain ⟨c, hc, hcancelled, hreason, -⟩ := isCancelled_exact hl hmade
  have hunder : Under visit 2 0 := .head (b := 1) rfl (.single rfl)
  refine ⟨hl, c, hc, hcancelled.2 (.inl ⟨0, "client went away", by simp [visit], hunder⟩),
    hreason _ ?_⟩
  refine ⟨[.wait 7.0, .create (some 1) none], 0, _, rfl, hunder, ?_⟩
  rintro a r hmem
  simp at hmem

end ContextHistory

end Gatehouse
