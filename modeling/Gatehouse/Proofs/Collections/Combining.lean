import Gatehouse.Collections.Ordered
import Gatehouse.Proofs.Collections.NameSet
import Mathlib.Data.List.Induction
import Mathlib.Data.List.Nodup

/-!
# Laws of combination

A union of maps follows the laws of the function that joins two values of one name: it is
associative, commutative or idempotent if that function is, and the empty map adds nothing.  So a
union of sets has all of these laws.  A list in which every member counts once, where it first
occurs, can be put together from lists that were cleared of repetitions before
(`OrderedMap.distinct_distinct_append`, `OrderedMap.distinct_append_distinct`).
-/

namespace Gatehouse

namespace NameMap

variable {α : Type} (f : α → α → α)

/-- A union shows at each name what both maps show there, merged. -/
theorem find?_unionWith_eq_merge (a b : NameMap α) (name : Text) :
    (unionWith f a b).find? name = (a.find? name).merge f (b.find? name) := by
  rw [find?_unionWith]
  cases a.find? name <;> cases b.find? name <;> rfl

/-- Maps are united in any grouping if values are. -/
theorem unionWith_assoc [Std.Associative f] (a b c : NameMap α) :
    unionWith f (unionWith f a b) c = unionWith f a (unionWith f b c) := by
  refine ext_find? fun name => ?_
  simp only [find?_unionWith_eq_merge]
  exact Std.Associative.assoc _ _ _

/-- Maps are united in any order if values are. -/
theorem unionWith_comm [Std.Commutative f] (a b : NameMap α) :
    unionWith f a b = unionWith f b a := by
  refine ext_find? fun name => ?_
  simp only [find?_unionWith_eq_merge]
  exact Std.Commutative.comm _ _

/-- A map united with itself is the same if a value is. -/
theorem unionWith_self [Std.IdempotentOp f] (a : NameMap α) : unionWith f a a = a := by
  refine ext_find? fun name => ?_
  rw [find?_unionWith_eq_merge]
  exact Std.IdempotentOp.idempotent _

/-- The empty map adds nothing on the left. -/
theorem empty_unionWith (a : NameMap α) : unionWith f ∅ a = a :=
  ext_find? fun name => by rw [find?_unionWith_eq_merge, find?_empty, Option.merge_none_left]

/-- The empty map adds nothing on the right. -/
theorem unionWith_empty (a : NameMap α) : unionWith f a ∅ = a :=
  ext_find? fun name => by rw [find?_unionWith_eq_merge, find?_empty, Option.merge_none_right]

instance [Std.Associative f] : Std.Associative (unionWith f) := ⟨unionWith_assoc f⟩

instance [Std.Commutative f] : Std.Commutative (unionWith f) := ⟨unionWith_comm f⟩

instance [Std.IdempotentOp f] : Std.IdempotentOp (unionWith f) := ⟨unionWith_self f⟩

end NameMap

namespace NameSet

/-- Joining the values of a common name, where there are none to speak of. -/
abbrev joinNothing (_ _ : Unit) : Unit := ()

instance : Std.Associative joinNothing := ⟨fun _ _ _ => rfl⟩

instance : Std.Commutative joinNothing := ⟨fun _ _ => rfl⟩

instance : Std.IdempotentOp joinNothing := ⟨fun _ => rfl⟩

/-- Sets of names are united in any grouping. -/
theorem union_assoc (a b c : NameSet) : a ∪ b ∪ c = a ∪ (b ∪ c) :=
  NameMap.unionWith_assoc joinNothing a b c

/-- Sets of names are united in any order. -/
theorem union_comm (a b : NameSet) : a ∪ b = b ∪ a := NameMap.unionWith_comm joinNothing a b

/-- A set of names united with itself is the same. -/
theorem union_self (a : NameSet) : a ∪ a = a := NameMap.unionWith_self joinNothing a

/-- The empty set adds nothing on the left. -/
theorem empty_union (a : NameSet) : ∅ ∪ a = a := NameMap.empty_unionWith joinNothing a

/-- The empty set adds nothing on the right. -/
theorem union_empty (a : NameSet) : a ∪ ∅ = a := NameMap.unionWith_empty joinNothing a

instance : Std.Associative (Union.union : NameSet → NameSet → NameSet) := ⟨union_assoc⟩

instance : Std.Commutative (Union.union : NameSet → NameSet → NameSet) := ⟨union_comm⟩

instance : Std.IdempotentOp (Union.union : NameSet → NameSet → NameSet) := ⟨union_self⟩

end NameSet

namespace OrderedMap

variable {κ : Type} [DecidableEq κ]

/-- Adds a member to a list unless it is there. -/
abbrev see (seen : List κ) (k : κ) : List κ := if k ∈ seen then seen else seen ++ [k]

/-- Seen in the end is what was seen before or comes along. -/
theorem mem_foldl_see {l seen : List κ} {k : κ} : k ∈ l.foldl see seen ↔ k ∈ seen ∨ k ∈ l := by
  induction l generalizing seen with
  | nil => simp
  | cons k' rest ih =>
    rw [List.foldl_cons, ih, see]
    split <;> grind

/-- Nothing is seen twice. -/
theorem nodup_foldl_see {l seen : List κ} (h : seen.Nodup) : (l.foldl see seen).Nodup := by
  induction l generalizing seen with
  | nil => exact h
  | cons k rest ih =>
    refine ih ?_
    unfold see
    split
    · exact h
    · next hk =>
      refine List.nodup_append.2 ⟨h, List.nodup_singleton k, fun a ha b hb => ?_⟩
      exact List.mem_singleton.1 hb ▸ ne_of_mem_of_not_mem ha hk

/-- A list without repetitions is added as it is. -/
theorem foldl_see_of_nodup {l seen : List κ} (h : (seen ++ l).Nodup) :
    l.foldl see seen = seen ++ l := by
  induction l generalizing seen with
  | nil => simp
  | cons k rest ih =>
    have hk : k ∉ seen := fun hmem => (List.nodup_append.1 h).2.2 k hmem k List.mem_cons_self rfl
    rw [List.foldl_cons, see, if_neg hk, ih (by simpa using h)]
    simp

/-- Members that are there already add nothing. -/
theorem foldl_see_of_subset {l seen : List κ} (h : l ⊆ seen) : l.foldl see seen = seen := by
  induction l with
  | nil => rfl
  | cons k rest ih =>
    obtain ⟨hk, hrest⟩ := List.cons_subset.1 h
    rw [List.foldl_cons, see, if_pos hk, ih hrest]

/-- A second list is added to what is left of the first one. -/
theorem distinct_append (l l' : List κ) : distinct (l ++ l') = l'.foldl see (distinct l) :=
  List.foldl_append

/-- Repetitions make no difference to what is added. -/
theorem foldl_see_distinct (l seen : List κ) : (distinct l).foldl see seen = l.foldl see seen := by
  induction l using List.reverseRecOn with
  | nil => rfl
  | append_singleton l k ih =>
    have hsnoc : distinct (l ++ [k]) = see (distinct l) k := distinct_append l [k]
    rw [hsnoc, List.foldl_append, ← ih]
    change _ = see ((distinct l).foldl see seen) k
    by_cases hk : k ∈ distinct l
    · have hseen : k ∈ (distinct l).foldl see seen := mem_foldl_see.2 (.inr hk)
      rw [see, if_pos hk, see, if_pos hseen]
    · rw [see, if_neg hk, List.foldl_append]
      rfl

/-- The members are still there. -/
theorem mem_distinct {l : List κ} {k : κ} : k ∈ distinct l ↔ k ∈ l := by
  refine mem_foldl_see.trans ?_
  simp

/-- Every member counts once. -/
theorem nodup_distinct (l : List κ) : (distinct l).Nodup := nodup_foldl_see List.nodup_nil

/-- A list without repetitions stays as it is. -/
theorem distinct_eq_self {l : List κ} (h : l.Nodup) : distinct l = l := foldl_see_of_nodup h

/-- A list without repetitions stays as it is when it is put behind itself. -/
theorem distinct_append_self {l : List κ} (h : l.Nodup) : distinct (l ++ l) = l := by
  rw [distinct_append, distinct_eq_self h, foldl_see_of_subset (List.Subset.refl l)]

/-- Dropping repetitions early, on the left, makes no difference. -/
theorem distinct_distinct_append (l l' : List κ) :
    distinct (distinct l ++ l') = distinct (l ++ l') := by
  rw [distinct_append, distinct_append, distinct_eq_self (nodup_distinct l)]

/-- Dropping repetitions early, on the right, makes no difference. -/
theorem distinct_append_distinct (l l' : List κ) :
    distinct (l ++ distinct l') = distinct (l ++ l') := by
  rw [distinct_append, distinct_append, foldl_see_distinct]

end OrderedMap

end Gatehouse
