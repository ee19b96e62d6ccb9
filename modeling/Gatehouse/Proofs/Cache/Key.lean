import Gatehouse.Cache.Key

/-!
# Keys of resolvers

The keys under which resolvers keep compiled policies and access control lists differ unless they
stand for the same thing.  Main statements: two keys of compiled policies are the same exactly if
name, version and fingerprint count as equal (`CacheKey.normal_ofPolicy_eq_iff`), two keys of lists
exactly if fingerprint and digest are (`CacheKey.normal_ofAcl_eq_iff`), the two sorts never meet
(`CacheKey.normal_ofPolicy_ne_ofAcl`), and the tests by which resolvers drop entries can be made on
every key of theirs (`CacheKey.beginsWith_eq_ok`).
-/

namespace Gatehouse

namespace Value

/-- Data is nested exactly if its normal form is. -/
theorem isNested_normal (v : Value) : v.normal.isNested = v.isNested := by
  cases v with
  | real x =>
    rw [normal]
    split <;> rfl
  | _ => rfl

/-- Only a text has the normal form of a text. -/
theorem normal_eq_text_iff {v : Value} {s : Text} : v.normal = .text s ↔ v = .text s := by
  constructor
  · intro h
    exact text_eq_of_same (decide_eq_true (h : v.normal = normal (.text s)))
  · rintro rfl
    rfl

end Value

namespace CacheKey

variable {k l : CacheKey} {v w : Value} {s : Text}

/-- Only a text has that text for its normal form. -/
theorem normal_eq_text_iff : k.normal = .text s ↔ k = .text s := by
  cases k <;> simp [normal]

/-- Data are the same key exactly if they count as equal. -/
theorem normal_ofDatum_eq_iff : (ofDatum v).normal = (ofDatum w).normal ↔ v.same w = true := by
  have htext : ∀ {u : Value} {s : Text}, (ofDatum u).normal = .text s ↔ u = .text s := by
    intro u s
    rw [normal_eq_text_iff]
    cases u <;> simp [ofDatum]
  have hother : ∀ {u : Value}, (∀ s, u ≠ .text s) → (ofDatum u).normal = .datum u.normal := by
    intro u hu
    cases u with
    | text s => exact absurd rfl (hu s)
    | _ => rfl
  rw [Value.same, decide_eq_true_iff]
  by_cases hv : ∃ s, v = .text s
  · obtain ⟨s, rfl⟩ := hv
    change CacheKey.text s = _ ↔ Value.text s = _
    rw [eq_comm, htext, eq_comm (b := w.normal), Value.normal_eq_text_iff]
  · by_cases hw : ∃ s, w = .text s
    · obtain ⟨s, rfl⟩ := hw
      change _ = CacheKey.text s ↔ _ = Value.text s
      rw [htext, Value.normal_eq_text_iff]
    · rw [hother fun s h => hv ⟨s, h⟩, hother fun s h => hw ⟨s, h⟩, datum.injEq]

/-- **Keys of compiled policies** are the same exactly if all parts count as equal. -/
theorem normal_ofPolicy_eq_iff {n v f n' v' f' : Value} :
    (ofPolicy n v f).normal = (ofPolicy n' v' f').normal ↔
      n.same n' = true ∧ v.same v' = true ∧ f.same f' = true := by
  simp only [ofPolicy, normal, normalItems, tuple.injEq, List.cons.injEq, true_and, and_true,
    normal_ofDatum_eq_iff]

/-- **Keys of lists** are the same exactly if fingerprint and digest are. -/
theorem normal_ofAcl_eq_iff {f f' : Value} {d d' : Text} :
    (ofAcl f d).normal = (ofAcl f' d').normal ↔ f.same f' = true ∧ d = d' := by
  simp only [ofAcl, normal, normalItems, tuple.injEq, List.cons.injEq, true_and, and_true,
    normal_ofDatum_eq_iff, text.injEq]

/-- **A compiled policy and a list never have the same key.** -/
theorem normal_ofPolicy_ne_ofAcl (n v f f' : Value) (d : Text) :
    (ofPolicy n v f).normal ≠ (ofAcl f' d).normal := by
  simp [ofPolicy, ofAcl, normal, normalItems]

/-! ### Looking keys up -/

/-- Data can be looked up exactly if it is not nested. -/
theorem unfit?_normal_ofDatum : (ofDatum v).normal.unfit? = none ↔ v.isNested = false := by
  cases v with
  | real x =>
    change unfit? (.datum (Value.normal (.real x))) = none ↔ _
    simp [unfit?, Value.isNested_normal]
  | _ => simp [ofDatum, normal, unfit?, Value.isNested, Value.normal]

/-- The key of a list can always be looked up. -/
theorem unfit?_ofAcl (f d : Text) : (ofAcl (.text f) d).normal.unfit? = none := rfl

/-- The key of a compiled policy can be looked up if neither name nor version is nested. -/
theorem unfit?_ofPolicy (hn : v.isNested = false) (hw : w.isNested = false) (f : Text) :
    (ofPolicy v w (.text f)).normal.unfit? = none := by
  simp only [ofPolicy, normal, normalItems, unfit?, unfitItem?, unfit?_normal_ofDatum.2 hn,
    unfit?_normal_ofDatum.2 hw, Option.or_none]
  rfl

/-! ### Tests on keys -/

/-- **The test of what a key begins with can be made on every tuple that begins with a text.** -/
theorem beginsWith_eq_ok {tag : Text} {b : CacheKey} {rest : List CacheKey}
    (h : l.normal = .tuple (.text tag :: b :: rest)) (first : Text) (second : Value) :
    l.beginsWith first second =
      .ok (decide (tag = first) && (!second.isNested && decide (b = (ofDatum second).normal))) := by
  cases l with
  | text s => simp [normal] at h
  | datum v => simp [normal] at h
  | tuple items =>
    rw [normal, tuple.injEq] at h
    rcases items with _ | ⟨a, _ | ⟨c, items⟩⟩
    · simp [normalItems] at h
    · simp [normalItems] at h
    · simp only [normalItems, List.cons.injEq] at h
      obtain ⟨ha, rfl, -⟩ := h
      obtain rfl := normal_eq_text_iff.1 ha
      by_cases htag : tag = first
      · subst htag
        simp [beginsWith, component, isDatum, same]
      · simp [beginsWith, component, htag]

end CacheKey

end Gatehouse
