import Mathlib.Data.Int.Order.Basic
import Mathlib.Data.Prod.Lex

/-!
# Instants in order

Of two doubles that are numbers, one is at most the other, or it is greater
(`Decimal.lt_of_not_le`).  So what has not expired expires later.  And what has expired stays so as
the clock goes on, as doubles are ordered transitively (`Decimal.le_trans`): a number has its place
in a linear order (`Decimal.rank`).
-/

namespace Gatehouse.Decimal

open Float.Model (UnpackedFloat)

/-- Two numbers compare either way round. -/
theorem compare_swap : ∀ {x y : UnpackedFloat}, x.isNaN = false → y.isNaN = false →
    ∃ o, x.compare y = some o ∧ y.compare x = some o.swap
  | .infinity s, .infinity s', _, _ | .infinity s, .zero s', _, _
  | .infinity s, .finite s' _ _ _, _, _ | .zero s, .infinity s', _, _
  | .zero s, .zero s', _, _ | .zero s, .finite s' _ _ _, _, _
  | .finite s _ _ _, .infinity s', _, _ | .finite s _ _ _, .zero s', _, _ => by
    cases s <;> cases s' <;> exact ⟨_, rfl, rfl⟩
  | .finite s m e _, .finite s' m' e' _, _, _ => by
    have hswap : (compare e' e).then (compare m' m) =
        ((compare e e').then (compare m m')).swap := by
      rw [Ordering.swap_then, ← Std.OrientedOrd.eq_swap (a := e') (b := e),
        ← Std.OrientedOrd.eq_swap (a := m') (b := m)]
    cases s <;> cases s'
    · exact ⟨_, rfl, congrArg some (congrArg Ordering.swap hswap)⟩
    · exact ⟨_, rfl, rfl⟩
    · exact ⟨_, rfl, rfl⟩
    · exact ⟨_, rfl, congrArg some hswap⟩

/-- Floats are compared as the numbers that they stand for. -/
theorem le_iff {x y : Float} : x ≤ y ↔ x.toModel.unpack.le y.toModel.unpack = true := by
  change decide (x.toModel.unpack.le y.toModel.unpack = true) = true ↔ _
  rw [decide_eq_true_iff]

/-- Floats are compared strictly as the numbers that they stand for. -/
theorem lt_iff {x y : Float} : x < y ↔ x.toModel.unpack.lt y.toModel.unpack = true := by
  change decide (x.toModel.unpack.lt y.toModel.unpack = true) = true ↔ _
  rw [decide_eq_true_iff]

/-- **A number that is not at most another one is greater.** -/
theorem lt_of_not_le {x y : Float} (hx : x.isNaN = false) (hy : y.isNaN = false)
    (h : ¬ x ≤ y) : y < x := by
  obtain ⟨o, hxy, hyx⟩ := compare_swap hx hy
  have hle : ¬ x.toModel.unpack.le y.toModel.unpack = true := fun hle => h (le_iff.2 hle)
  rw [UnpackedFloat.le, hxy] at hle
  rw [lt_iff, UnpackedFloat.lt, hyx]
  cases o with
  | gt => rfl
  | lt => exact absurd rfl hle
  | eq => exact absurd rfl hle

/-- What is less than a number is at most it. -/
theorem le_of_lt {x y : Float} (h : x < y) : x ≤ y := by
  rw [lt_iff, UnpackedFloat.lt, beq_iff_eq] at h
  rw [le_iff, UnpackedFloat.le, h]
  rfl

/-- A number that is less than another one is not at least that. -/
theorem not_le_of_lt {x y : Float} (hx : x.isNaN = false) (hy : y.isNaN = false) (h : x < y) :
    ¬ y ≤ x := by
  obtain ⟨o, hxy, hyx⟩ := compare_swap hx hy
  rw [lt_iff, UnpackedFloat.lt, hxy, beq_iff_eq, Option.some.injEq] at h
  rw [le_iff, UnpackedFloat.le, hyx, h]
  decide

/-- A number is at most itself. -/
theorem le_self {x : Float} (hx : x.isNaN = false) : x ≤ x := by
  by_contra h
  exact h (le_of_lt (lt_of_not_le hx hx h))

/-! ### Places of numbers -/

/-- Where a number stands among all numbers; what is no number stands nowhere. -/
def rank : UnpackedFloat → Option (Int ×ₗ Int ×ₗ Int)
  | .notANumber => none
  | .infinity .negative => some (toLex (-2, toLex (0, 0)))
  | .finite .negative m e _ => some (toLex (-1, toLex (-e, -(m : Int))))
  | .zero _ => some (toLex (0, toLex (0, 0)))
  | .finite .positive m e _ => some (toLex (1, toLex (e, (m : Int))))
  | .infinity .positive => some (toLex (2, toLex (0, 0)))

/-- By exponents first and mantissas then, what is at most is less in the one or equal and at most
in the other. -/
theorem isLE_then_iff (m m' : Nat) (e e' : Int) :
    ((compare e e').then (compare m m')).isLE = true ↔ e < e' ∨ e = e' ∧ m ≤ m' := by
  rcases lt_trichotomy e e' with h | rfl | h
  · simp [Std.compare_eq_lt.2 h, h]
  · simp [Nat.isLE_compare]
  · simp [Std.compare_eq_gt.2 h, h.not_gt, h.ne']

/-- By exponents first and mantissas then, what is at least is greater in the one or equal and at
least in the other. -/
theorem isGE_then_iff (m m' : Nat) (e e' : Int) :
    ((compare e e').then (compare m m')).isGE = true ↔ e' < e ∨ e = e' ∧ m' ≤ m := by
  rcases lt_trichotomy e e' with h | rfl | h
  · simp [Std.compare_eq_lt.2 h, h.not_gt, h.ne]
  · simp [Nat.isGE_compare]
  · simp [Std.compare_eq_gt.2 h, h]

/-- One number is at most another one if it stands no further up. -/
theorem le_iff_rank (x y : UnpackedFloat) :
    x.le y = true ↔ ∃ a b, rank x = some a ∧ rank y = some b ∧ a ≤ b := by
  rcases x with s | _ | s | ⟨s, m, e, -⟩ <;> rcases y with s' | _ | s' | ⟨s', m', e', -⟩ <;>
    try cases s
  all_goals try cases s'
  all_goals
    dsimp only [UnpackedFloat.le, UnpackedFloat.compare, rank]
    simp [Prod.Lex.toLex_le_toLex, isLE_then_iff, isGE_then_iff]
  -- what is left compares signs
  all_goals decide

/-- **Instants are ordered transitively.** -/
theorem le_trans {x y z : Float} (h : x ≤ y) (h' : y ≤ z) : x ≤ z := by
  rw [le_iff, le_iff_rank] at *
  obtain ⟨a, b, ha, hb, hab⟩ := h
  obtain ⟨b', c, hb', hc, hbc⟩ := h'
  obtain rfl : b = b' := Option.some.inj (hb.symm.trans hb')
  exact ⟨a, c, ha, hc, hab.trans hbc⟩

end Gatehouse.Decimal
