import Gatehouse.Context.Forest
import Gatehouse.Proofs.Decimal.Order
import Mathlib.Logic.Relation

/-!
# Histories of contexts

What happens to contexts that are all kept is a list of events, latest first: contexts are made,
cancelled, and time passes (`ContextEvent`).  What a context should be can be read off the history
alone: what is above it (`ContextHistory.Under`), which call to cancel it or one above it came first
(`ContextHistory.FirstCall`), and which of their own deadlines is the least
(`ContextHistory.LeastDeadline`).  Main statements: how each of these goes on with one more event
(`ContextHistory.Reason.call`, `ContextHistory.under_create_new`, `ContextHistory.Least.earlier`).
-/

namespace Gatehouse

open Relation (ReflTransGen)

/-- What may happen to contexts. -/
inductive ContextEvent where
  /-- A context is made, below another one or as a root. -/
  | create (parent : Option ContextId) (timeout : Option Float)
  /-- A context is cancelled. -/
  | cancel (id : ContextId) (reason : Text)
  /-- Time passes. -/
  | wait (now : Float)

namespace ContextHistory

/-! ### What a history says -/

/-- The number of contexts made so far, which is the number of the next one. -/
def made : List ContextEvent → ContextId
  | [] => 0
  | .create _ _ :: rest => made rest + 1
  | _ :: rest => made rest

/-- The context that another one was made below. -/
def parentOf : List ContextEvent → ContextId → Option ContextId
  | [], _ => none
  | .create parent _ :: rest, id => if id = made rest then parent else parentOf rest id
  | _ :: rest, id => parentOf rest id

/-- A context is another one, or somewhere below it. -/
def Under (h : List ContextEvent) : ContextId → ContextId → Prop :=
  ReflTransGen fun id parent => parentOf h id = some parent

/-- A context is above one that is made below `parent`. -/
def Above (h : List ContextEvent) (parent : Option ContextId) (a : ContextId) : Prop :=
  ∃ p ∈ parent, Under h p a

/-- No call to cancel is about one of some contexts. -/
def NoCall (P : ContextId → Prop) (h : List ContextEvent) : Prop :=
  ∀ a reason, .cancel a reason ∈ h → ¬ P a

/-- The first call to cancel one of some contexts has this reason. -/
def FirstCall (P : ContextId → Prop) (h : List ContextEvent) (reason : Text) : Prop :=
  ∃ later a earlier, h = later ++ .cancel a reason :: earlier ∧ P a ∧ NoCall P earlier

variable (start : Float)

/-- The reading of the clock, which started at `start`. -/
def clock : List ContextEvent → Float
  | [] => start
  | .wait now :: _ => now
  | _ :: rest => clock rest

/-- The deadline that a context was given itself: its timeout, from when it was made. -/
def ownDeadline : List ContextEvent → ContextId → Option Float
  | [], _ => none
  | .create _ timeout :: rest, id =>
    if id = made rest then timeout.map (clock start rest + ·) else ownDeadline rest id
  | _ :: rest, id => ownDeadline rest id

/-- The least of the deadlines of some contexts, if one of them has a deadline. -/
def Least (P : ContextId → Prop) (deadline : ContextId → Option Float) : Option Float → Prop
  | none => ∀ a, P a → deadline a = none
  | some t => (∃ a, P a ∧ deadline a = some t) ∧ ∀ a t', P a → deadline a = some t' → t ≤ t'

/-- The least of the deadlines that a context and those above it were given. -/
def LeastDeadline (h : List ContextEvent) (id : ContextId) : Option Float → Prop :=
  Least (Under h id) (ownDeadline start h)

/-- **A history that may be:** contexts are there before they are cancelled or another one is made
below them, the clock never goes back, and deadlines are numbers. -/
def Lawful : List ContextEvent → Prop
  | [] => True
  | .create parent timeout :: rest =>
    (∀ p ∈ parent, p < made rest) ∧ (∀ s ∈ timeout, (clock start rest + s).isNaN = false) ∧
      Lawful rest
  | .cancel id _ :: rest => id < made rest ∧ Lawful rest
  | .wait now :: rest => clock start rest ≤ now ∧ Lawful rest

/-- The contexts after a history. -/
def forest : List ContextEvent → ContextForest
  | [] => .empty
  | .create parent timeout :: rest =>
    ((forest rest).create .engine parent timeout (clock start rest)).1
  | .cancel id reason :: rest => (forest rest).cancel id (some (.text reason))
  | .wait _ :: rest => forest rest

variable {start} {h rest : List ContextEvent} {e : ContextEvent} {P Q : ContextId → Prop}
  {id a p : ContextId} {reason : Text} {t : Float}

/-- What is lawful was so before the last event. -/
theorem Lawful.tail (hl : Lawful start (e :: h)) : Lawful start h := by
  cases e with
  | create => exact hl.2.2
  | cancel => exact hl.2
  | wait => exact hl.2

/-! ### Calls to cancel -/

/-- No call was made exactly if the last event is none and there was none before. -/
theorem noCall_cons :
    NoCall P (e :: rest) ↔ (∀ a reason, e = .cancel a reason → ¬ P a) ∧ NoCall P rest := by
  simp only [NoCall, List.mem_cons, eq_comm (a := e)]
  exact ⟨fun h => ⟨fun a r he => h a r (.inl he), fun a r hr => h a r (.inr hr)⟩,
    fun h a r => Or.rec (h.1 a r) (h.2 a r)⟩

/-- Where there is a first call, it is not so that there is none. -/
theorem FirstCall.not_noCall (h : FirstCall P rest reason) : ¬ NoCall P rest := by
  obtain ⟨later, a, earlier, rfl, ha, -⟩ := h
  exact fun hno => hno a reason (by simp) ha

/-- Only one call is the first one. -/
theorem FirstCall.unique {reason' : Text} (h : FirstCall P rest reason)
    (h' : FirstCall P rest reason') : reason = reason' := by
  induction rest with
  | nil =>
    obtain ⟨later, a, earlier, hsplit, -⟩ := h
    cases later <;> cases hsplit
  | cons e rest ih =>
    have hcases : ∀ {r : Text}, FirstCall P (e :: rest) r →
        FirstCall P rest r ∨ NoCall P rest ∧ ∃ a, e = .cancel a r := by
      rintro r ⟨_ | ⟨_, later⟩, a, earlier, hsplit, hcall⟩
      · obtain ⟨rfl, rfl⟩ := List.cons.inj hsplit
        exact .inr ⟨hcall.2, a, rfl⟩
      · obtain ⟨rfl, rfl⟩ := List.cons.inj hsplit
        exact .inl ⟨later, a, earlier, rfl, hcall⟩
    rcases hcases h with h | ⟨hno, a, rfl⟩ <;> rcases hcases h' with h' | ⟨hno', b, he⟩
    · exact ih h h'
    · exact absurd hno' h.not_noCall
    · exact absurd hno h'.not_noCall
    · exact (ContextEvent.cancel.inj he).2

/-- The first call stays the first one. -/
theorem FirstCall.cons (h : FirstCall P rest reason) (e : ContextEvent) :
    FirstCall P (e :: rest) reason := by
  obtain ⟨later, a, earlier, rfl, hcall⟩ := h
  exact ⟨e :: later, a, earlier, rfl, hcall⟩

/-- The first call is the same for contexts that the same calls are about. -/
theorem FirstCall.congr (h : FirstCall P rest reason)
    (hiff : ∀ a reason, .cancel a reason ∈ rest → (P a ↔ Q a)) : FirstCall Q rest reason := by
  obtain ⟨later, a, earlier, rfl, ha, hno⟩ := h
  refine ⟨later, a, earlier, rfl, (hiff a reason (by simp)).1 ha, fun b r hb hQ => ?_⟩
  exact hno b r hb ((hiff b r (by simp [hb])).2 hQ)

/-- The reason for which a context should have been cancelled, if it should have been. -/
def Reason (P : ContextId → Prop) (h : List ContextEvent) : Option Value → Prop
  | none => NoCall P h
  | some v => ∃ reason, v = .text reason ∧ FirstCall P h reason

/-- The reason is the same for contexts that the same calls are about. -/
theorem Reason.congr {o : Option Value} (h : Reason P rest o)
    (hiff : ∀ a reason, .cancel a reason ∈ rest → (P a ↔ Q a)) : Reason Q rest o := by
  cases o with
  | none => exact fun a r hr hQ => h a r hr ((hiff a r hr).2 hQ)
  | some v => exact Exists.imp (fun _ hr => ⟨hr.1, hr.2.congr hiff⟩) h

/-- An event that is no call on one of the contexts leaves the reason as it was. -/
theorem Reason.cons {o : Option Value} (h : Reason P rest o)
    (he : ∀ a reason, e = .cancel a reason → ¬ P a) : Reason P (e :: rest) o := by
  cases o with
  | none => exact noCall_cons.2 ⟨he, h⟩
  | some v => exact Exists.imp (fun _ hr => ⟨hr.1, hr.2.cons e⟩) h

/-- A call on one of the contexts gives the reason, unless there is one already. -/
theorem Reason.call {o : Option Value} (h : Reason P rest o) (ha : P a) :
    Reason P (.cancel a reason :: rest) (o.or (some (.text reason))) := by
  cases o with
  | none => exact ⟨reason, rfl, [], a, rest, rfl, ha, h⟩
  | some v => exact Exists.imp (fun _ hr => ⟨hr.1, hr.2.cons _⟩) h

/-! ### What is above a context -/

/-- Only contexts that were made are below others, and those were made before. -/
theorem Lawful.parentOf_lt (hl : Lawful start h) (hp : parentOf h id = some p) :
    id < made h ∧ p < id := by
  induction h with
  | nil => cases hp
  | cons e rest ih =>
    have hrest := ih hl.tail
    cases e with
    | create parent timeout =>
      simp only [parentOf] at hp
      split at hp
      · next hid =>
        subst hid
        exact ⟨Nat.lt_succ_self _, hl.1 p hp⟩
      · exact (hrest hp).imp_left Nat.lt_succ_of_lt
    | cancel => exact hrest hp
    | wait => exact hrest hp

/-- What is cancelled was made. -/
theorem Lawful.lt_made (hl : Lawful start h) (hmem : .cancel a reason ∈ h) : a < made h := by
  induction h with
  | nil => cases hmem
  | cons e rest ih =>
    rcases List.mem_cons.1 hmem with rfl | hmem
    · exact hl.1
    have hlt := ih hl.tail hmem
    cases e with
    | create => exact Nat.lt_succ_of_lt hlt
    | cancel => exact hlt
    | wait => exact hlt

/-- What is above a context has a smaller number. -/
theorem Lawful.le_of_under (hl : Lawful start h) (hu : Under h id a) : a ≤ id := by
  induction hu with
  | refl => exact Nat.le_refl _
  | tail _ hstep ih => exact (Nat.le_of_lt (hl.parentOf_lt hstep).2).trans ih

/-- What is below a context that was made was made, too. -/
theorem Lawful.lt_made_of_under (hl : Lawful start h) (ha : a < made h) (hu : Under h id a) :
    id < made h := by
  rcases ReflTransGen.cases_head hu with rfl | ⟨p, hstep, -⟩
  · exact ha
  · exact (hl.parentOf_lt hstep).1

section Create

variable {parent : Option ContextId} {timeout : Option Float}
  (hl : Lawful start (.create parent timeout :: rest))
include hl

/-- A new context is above no other one. -/
theorem under_create_old (hid : id < made rest) :
    Under (.create parent timeout :: rest) id a ↔ Under rest id a := by
  have hsame : ∀ i, i < made rest →
      parentOf (.create parent timeout :: rest) i = parentOf rest i :=
    fun i hi => if_neg (Nat.ne_of_lt hi)
  constructor
  · intro hu
    induction hu using ReflTransGen.head_induction_on with
    | refl => exact .refl
    | head hstep _ ih =>
      rw [hsame _ hid] at hstep
      exact .head hstep (ih ((hl.tail.parentOf_lt hstep).2.trans hid))
  · intro hu
    induction hu using ReflTransGen.head_induction_on with
    | refl => exact .refl
    | head hstep _ ih =>
      have hlt := (hl.tail.parentOf_lt hstep).2.trans hid
      exact .head ((hsame _ hid).trans hstep) (ih hlt)

/-- Above a new context is what is above the one it was made below. -/
theorem under_create_new :
    Under (.create parent timeout :: rest) (made rest) a ↔
      a = made rest ∨ Above rest parent a := by
  have hnew : parentOf (.create parent timeout :: rest) (made rest) = parent := if_pos rfl
  constructor
  · intro hu
    rcases ReflTransGen.cases_head hu with rfl | ⟨p, hstep, hu⟩
    · exact .inl rfl
    · have hp : p ∈ parent := hnew.symm.trans hstep
      exact .inr ⟨p, hp, (under_create_old hl (hl.1 p hp)).1 hu⟩
  · rintro (rfl | ⟨p, hp, hu⟩)
    · exact .refl
    · exact .head (hnew.trans hp) ((under_create_old hl (hl.1 p hp)).2 hu)

/-- What is above a new context was made before. -/
theorem Lawful.lt_made_of_above (ha : Above rest parent a) : a < made rest := by
  obtain ⟨p, hp, hu⟩ := ha
  exact (hl.tail.le_of_under hu).trans_lt (hl.1 p hp)

end Create

/-! ### Deadlines -/

/-- Deadlines that contexts were given are numbers. -/
theorem Lawful.isNaN_ownDeadline (hl : Lawful start h) (ht : ownDeadline start h id = some t) :
    t.isNaN = false := by
  induction h with
  | nil => cases ht
  | cons e rest ih =>
    cases e with
    | create parent timeout =>
      simp only [ownDeadline] at ht
      split at ht
      · obtain ⟨s, hs, rfl⟩ := Option.map_eq_some_iff.1 ht
        exact hl.2.1 s hs
      · exact ih hl.tail ht
    | cancel => exact ih hl.tail ht
    | wait => exact ih hl.tail ht

/-- What a new context does not change stays the least. -/
theorem Least.congr {f g : ContextId → Option Float} {o : Option Float} (h : Least P f o)
    (hiff : ∀ a, Q a ↔ P a) (hsame : ∀ a, P a → g a = f a) : Least Q g o := by
  cases o with
  | none => exact fun a ha => (hsame a ((hiff a).1 ha)).trans (h a ((hiff a).1 ha))
  | some t =>
    obtain ⟨⟨a, ha, ht⟩, hleast⟩ := h
    refine ⟨⟨a, (hiff a).2 ha, (hsame a ha).trans ht⟩, fun b t' hb ht' => ?_⟩
    have hb := (hiff b).1 hb
    exact hleast b t' hb ((hsame b hb).symm.trans ht')

section Earlier

variable {f : ContextId → Option Float} {n : ContextId} {o : Option Float} {x y : Float}
  (hl : Least P f o) (hiff : ∀ a, Q a ↔ a = n ∨ P a)
include hl hiff

/-- A context without a deadline does not change which one is the least. -/
theorem Least.skip (hown : f n = none) : Least Q f o := by
  cases o with
  | none =>
    intro a ha
    rcases (hiff a).1 ha with rfl | ha
    · exact hown
    · exact hl a ha
  | some y =>
    obtain ⟨⟨b, hb, hby⟩, hall⟩ := hl
    refine ⟨⟨b, (hiff b).2 (.inr hb), hby⟩, fun a t' ha ht' => ?_⟩
    rcases (hiff a).1 ha with rfl | ha
    · cases hown.symm.trans ht'
    · exact hall a t' ha ht'

/-- A deadline that is not later than the least one takes its place. -/
theorem Least.first (hown : f n = some x) (hx : x ≤ x) (hle : ∀ y, o = some y → x ≤ y) :
    Least Q f (some x) := by
  refine ⟨⟨n, (hiff n).2 (.inl rfl), hown⟩, fun a t' ha ht' => ?_⟩
  rcases (hiff a).1 ha with rfl | ha
  · obtain rfl := Option.some.inj (hown.symm.trans ht')
    exact hx
  · cases o with
    | none => cases (hl a ha).symm.trans ht'
    | some y => exact Decimal.le_trans (hle y rfl) (hl.2 a t' ha ht')

/-- A deadline that is later than the least one does not change which one is the least. -/
theorem Least.later (hown : f n = some x) (ho : o = some y) (hlt : y < x) :
    Least Q f (some y) := by
  subst ho
  obtain ⟨⟨b, hb, hby⟩, hall⟩ := hl
  refine ⟨⟨b, (hiff b).2 (.inr hb), hby⟩, fun a t' ha ht' => ?_⟩
  rcases (hiff a).1 ha with rfl | ha
  · obtain rfl := Option.some.inj (hown.symm.trans ht')
    exact Decimal.le_of_lt hlt
  · exact hall a t' ha ht'

/-- **One more deadline:** the earlier one of it and the least of the others is the least of all. -/
theorem Least.earlier (hnan : ∀ a t, f a = some t → t.isNaN = false) :
    Least Q f (ContextForest.earlier (f n) o) := by
  rcases hown : f n with _ | x
  · have hearlier : ContextForest.earlier none o = o := by cases o <;> rfl
    rw [hearlier]
    exact hl.skip hiff hown
  have hx := hnan n x hown
  cases o with
  | none => exact hl.first hiff hown (Decimal.le_self hx) nofun
  | some y =>
    by_cases hlt : y < x
    · rw [show ContextForest.earlier (some x) (some y) = some y from congrArg some (if_pos hlt)]
      exact hl.later hiff hown rfl hlt
    · rw [show ContextForest.earlier (some x) (some y) = some x from congrArg some (if_neg hlt)]
      refine hl.first hiff hown (Decimal.le_self hx) ?_
      rintro _ ⟨⟩
      obtain ⟨b, -, hby⟩ := hl.1
      by_contra hnot
      exact hlt (Decimal.lt_of_not_le hx (hnan b y hby) hnot)

end Earlier

end ContextHistory

end Gatehouse
