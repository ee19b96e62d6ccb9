import Gatehouse.Proofs.Decimal.Order
import Gatehouse.Proofs.Engine.Rules

/-!
# Cancelled contexts stay cancelled

A context is cancelled once it was stopped, by itself or with one above it, or once its deadline has
passed.  Going on under it then fails with its reason (`Engine.checkContext_of_isCancelled`).  Main
statement: while a context is held and no clock goes back, a cancelled context stays cancelled
(`Engine.exists_isCancelled_of_onward`).
-/

namespace Gatehouse

open Relation (ReflTransGen)

namespace Context

/-- The reason that is reported for a cancelled context: its own, or `unspecified` where that counts
as nothing. -/
def reportedReason (c : Context) (now : Float) : Value :=
  ((c.reason now).filter fun r => !r.isVacant).getD unspecified

variable {c : Context} {now now' : Float}

/-- Going on under a cancelled context fails with its reason. -/
theorem check_of_isCancelled (h : c.isCancelled now = true) :
    c.check now = .error (.cancelled (c.reportedReason now)) := by
  rw [check, if_pos h, reportedReason]
  rcases c.reason now with _ | r
  · rfl
  · cases hr : r.isVacant <;> simp [hr, Option.filter_some]

/-- What is cancelled stays so later on. -/
theorem isCancelled_mono (hle : now ≤ now') (h : c.isCancelled now = true) :
    c.isCancelled now' = true := by
  rw [isCancelled, Bool.or_eq_true] at h ⊢
  refine h.imp_right fun hexpired => ?_
  unfold isExpired at hexpired ⊢
  split at hexpired
  · cases hexpired
  · next t _ => exact decide_eq_true (Decimal.le_trans (of_decide_eq_true hexpired) hle)

end Context

namespace ContextForest

variable {f : ContextForest} {id : ContextId} {c : Context}

/-- A new context takes the number of no other one. -/
theorem find?_create (h : f.find? id = some c) (source : TimeSource) (parent : Option ContextId)
    (timeout : Option Float) (now : Float) :
    (f.create source parent timeout now).1.find? id = some c := by
  have hfind : f.contexts.find? (fun c => c.id == id) = some c := h
  simp only [find?, create, List.find?_append, hfind, Option.some_or]

/-- Cancelling a context changes at most that others are stopped. -/
theorem find?_cancel (h : f.find? id = some c) (id' : ContextId) (reason : Option Value) :
    (f.cancel id' reason).find? id = some c ∨
      (f.cancel id' reason).find? id = some (stopped reason c) := by
  have hfind : f.contexts.find? (fun c => c.id == id) = some c := h
  have hid : (fun c : Context => c.id == id) ∘ (fun c =>
      if (below [id'] f.contexts).contains c.id then stopped reason c else c) =
        fun c => c.id == id := by
    funext c
    simp only [Function.comp]
    split <;> rfl
  simp only [find?, cancel, List.find?_map, hid, hfind, Option.map_some]
  split
  · exact .inr rfl
  · exact .inl rfl

/-- Releasing contexts that are not held changes at most what another one is below. -/
theorem find?_release (h : f.find? id = some c) {held : List ContextId} (hid : id ∈ held) :
    (f.release held).find? id = some { c with parent := c.parent.filter held.contains } := by
  have hfind : f.contexts.find? (fun c => c.id == id) = some c := h
  have hboth : (fun c : Context => decide (held.contains c.id = true ∧ (c.id == id) = true)) =
      fun c => c.id == id := by
    funext c
    by_cases hc : c.id = id <;> simp [hc, hid]
  simp only [find?, release, List.find?_map, List.find?_filter, Function.comp_def, hboth, hfind,
    Option.map_some]

end ContextForest

namespace Engine

variable {η : Type} {s t : Engine η} {id : ContextId} {reason : Value}

/-- A context is held and cancelled, and this is the reason to report. -/
def IsCancelled (s : Engine η) (id : ContextId) (reason : Value) : Prop :=
  ∃ c, s.contexts.find? id = some c ∧ c.isCancelled (s.reading c.source) = true ∧
    c.reportedReason (s.reading c.source) = reason

/-- **Going on under a cancelled context fails with its reason,** and does nothing. -/
theorem checkContext_of_isCancelled (h : s.IsCancelled id reason) :
    checkContext id s = (.error (.ofFault (.cancelled reason)), s) := by
  obtain ⟨c, hc, hcancelled, rfl⟩ := h
  simp only [checkContext, hc, Context.check_of_isCancelled hcancelled]
  rfl

/-- A context is cancelled for one reason at a time. -/
theorem IsCancelled.reason_eq {reason' : Value} (h : s.IsCancelled id reason)
    (h' : s.IsCancelled id reason') : reason = reason' := by
  obtain ⟨c, hc, -, rfl⟩ := h
  obtain ⟨c', hc', -, rfl⟩ := h'
  obtain rfl := Option.some.inj (hc.symm.trans hc')
  rfl

/-- A context that nobody cancelled, and whose deadline has passed, is cancelled for that. -/
theorem isCancelled_of_overdue {c : Context} {d : Float} (hc : s.contexts.find? id = some c)
    (hgiven : c.givenReason = none) (hdeadline : c.deadline = some d)
    (hover : d ≤ s.reading c.source) :
    s.IsCancelled id (.text Context.deadlineExceeded) := by
  have hcancelled : c.isCancelled (s.reading c.source) = true := by
    simp [Context.isCancelled, Context.isExpired, hdeadline, hover]
  refine ⟨c, hc, hcancelled, ?_⟩
  simp only [Context.reportedReason, Context.reason, hgiven, hcancelled, if_true]
  rfl

/-- **What may happen while a context is held and no clock goes back.** -/
inductive Onward (id : ContextId) : Engine η → Engine η → Prop where
  /-- Time passes. -/
  | clock (s : Engine η) {now : Float} (h : s.clock ≤ now) : Onward id s { s with clock := now }
  /-- Time passes on the machine. -/
  | machine (s : Engine η) {now : Float} (h : s.machine ≤ now) :
    Onward id s { s with machine := now }
  /-- A context is made. -/
  | created (s : Engine η) (source : TimeSource) (parent : Option ContextId)
    (timeout : Option Float) (now : Float) :
    Onward id s { s with contexts := (s.contexts.create source parent timeout now).1 }
  /-- A context and all below it are cancelled. -/
  | cancelled (s : Engine η) (id' : ContextId) (reason : Option Value) :
    Onward id s { s with contexts := s.contexts.cancel id' reason }
  /-- Contexts that are not held are released. -/
  | released (s : Engine η) {held : List ContextId} (h : id ∈ held) :
    Onward id s { s with contexts := s.contexts.release held }
  /-- Something happens to the caches, the host or the resolutions under way. -/
  | other {s t : Engine η} (clock : t.clock = s.clock) (machine : t.machine = s.machine)
    (contexts : t.contexts = s.contexts) : Onward id s t

/-- A cancelled context is still there and cancelled after whatever may happen. -/
theorem Onward.exists_isCancelled (hstep : Onward id s t) (h : s.IsCancelled id reason) :
    ∃ reason', t.IsCancelled id reason' := by
  obtain ⟨c, hc, hcancelled, -⟩ := h
  have hexists : ∀ {u : Engine η} {c' : Context}, u.contexts.find? id = some c' →
      c'.isCancelled (u.reading c'.source) = true → ∃ reason', u.IsCancelled id reason' :=
    fun hc' hcancelled' => ⟨_, _, hc', hcancelled', rfl⟩
  cases hstep with
  | clock hle =>
    refine hexists hc ?_
    cases hsource : c.source <;> rw [hsource] at hcancelled
    · exact Context.isCancelled_mono hle hcancelled
    · exact hcancelled
  | machine hle =>
    refine hexists hc ?_
    cases hsource : c.source <;> rw [hsource] at hcancelled
    · exact hcancelled
    · exact Context.isCancelled_mono hle hcancelled
  | created source parent timeout now => exact hexists (ContextForest.find?_create hc ..) hcancelled
  | cancelled id' reason =>
    rcases ContextForest.find?_cancel hc id' reason with hc' | hc'
    · exact hexists hc' hcancelled
    · exact hexists hc' rfl
  | released hid => exact hexists (ContextForest.find?_release hc hid) hcancelled
  | other hclock hmachine hcontexts =>
    have hreading := reading_congr hclock hmachine
    exact hexists (by rw [hcontexts, hc]) (by rw [hreading]; exact hcancelled)

/-- **A cancelled context stays cancelled.** -/
theorem exists_isCancelled_of_onward (hsteps : ReflTransGen (Onward id) s t)
    (h : s.IsCancelled id reason) : ∃ reason', t.IsCancelled id reason' := by
  induction hsteps with
  | refl => exact ⟨reason, h⟩
  | tail _ hstep ih =>
    obtain ⟨reason', h'⟩ := ih
    exact hstep.exists_isCancelled h'

end Engine

end Gatehouse
