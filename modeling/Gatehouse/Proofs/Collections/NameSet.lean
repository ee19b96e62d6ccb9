import Gatehouse.Collections.Named

/-!
# Membership in sets of names and lookups in maps

What the operations of `NameMap` and `NameSet` do to lookups and to membership.  Main statements: a
union has the names of both sets (`NameSet.mem_union`), two sets with the same members are equal
(`NameSet.ext`), a union of maps joins the values of common names (`NameMap.find?_unionWith`), and a
group holds the values of its name in order (`NameMap.find?_group`).
-/

namespace Gatehouse

/-- Sorting neither adds nor drops a name. -/
theorem mem_sortNames {l : List Text} {n : Text} : n ∈ sortNames l ↔ n ∈ l :=
  (List.mergeSort_perm l _).mem_iff

/-- Sorted names are in increasing order. -/
theorem pairwise_sortNames (l : List Text) : (sortNames l).Pairwise (· ≤ ·) := by
  have htrans : ∀ a b c : Text, decide (a ≤ b) → decide (b ≤ c) → decide (a ≤ c) :=
    fun _ _ _ => by simpa using Text.le_trans
  have htotal : ∀ a b : Text, decide (a ≤ b) || decide (b ≤ a) := fun a b => by
    simpa using Text.le_total a b
  exact (List.pairwise_mergeSort htrans htotal l).imp of_decide_eq_true

/-- Names are sorted alike in whatever order they come. -/
theorem sortNames_eq_of_perm {l l' : List Text} (h : l.Perm l') : sortNames l = sortNames l' := by
  have hperm : (sortNames l).Perm (sortNames l') :=
    (List.mergeSort_perm l _).trans (h.trans (List.mergeSort_perm l' _).symm)
  exact hperm.eq_of_pairwise (fun _ _ _ _ => Text.le_antisymm) (pairwise_sortNames l)
    (pairwise_sortNames l')

namespace NameMap

variable {α : Type}

/-- A name is in a map exactly if something is found for it. -/
theorem mem_iff_isSome {m : NameMap α} {name : Text} :
    name ∈ m ↔ (m.find? name).isSome = true := Iff.rfl

/-- A name is in a map exactly if it has a value there. -/
theorem mem_iff_exists {m : NameMap α} {name : Text} :
    name ∈ m ↔ ∃ v, m.find? name = some v := by
  rw [mem_iff_isSome, Option.isSome_iff_exists]

/-- The test for a name decides whether it is in the map. -/
theorem contains_iff_mem {m : NameMap α} {name : Text} :
    m.contains name = true ↔ name ∈ m := Iff.rfl

/-- A name is not in a map exactly if nothing is found for it. -/
theorem not_mem_iff {m : NameMap α} {name : Text} : name ∉ m ↔ m.find? name = none := by
  rw [mem_iff_isSome, Bool.not_eq_true, Option.isSome_eq_false_iff, Option.isNone_iff_eq_none]

/-- No name stands twice in the list of a map. -/
theorem nodup_names (m : NameMap α) : m.names.Nodup :=
  List.pairwise_map.2 (m.sorted.imp fun {a b} h (e : a.1 = b.1) => Text.lt_irrefl _ (e ▸ h))

/-- The names of a map are those in it. -/
theorem mem_names_iff {m : NameMap α} {name : Text} : name ∈ m.names ↔ name ∈ m := by
  rw [← contains_iff_mem, contains_eq, List.contains_iff_mem]

/-- An insertion adds the one name. -/
theorem mem_insert {m : NameMap α} {name other : Text} {v : α} :
    other ∈ m.insert name v ↔ other = name ∨ other ∈ m := by
  rw [mem_iff_isSome, mem_iff_isSome, find?_insert]
  split <;> simp_all

/-- An entry of the list is the answer of a lookup. -/
theorem find?_eq_some_iff {m : NameMap α} {name : Text} {v : α} :
    m.find? name = some v ↔ (name, v) ∈ m.entries := by
  have hnodup := m.nodup_names
  unfold find? names at *
  generalize m.entries = l at hnodup ⊢
  induction l with
  | nil => simp
  | cons e rest ih =>
    obtain ⟨key, w⟩ := e
    simp only [List.map_cons, List.nodup_cons] at hnodup
    by_cases hkey : name = key
    · subst hkey
      have habsent : (name, v) ∉ rest := fun h => hnodup.1 (List.mem_map.2 ⟨_, h, rfl⟩)
      simp [habsent, eq_comm]
    · rw [List.lookup_cons, beq_eq_false_iff_ne.2 hkey]
      simp [ih hnodup.2, hkey]

/-! ### What holds of all entries -/

/-- Something holds of every entry of a map. -/
def All (P : Text → α → Prop) (m : NameMap α) : Prop := ∀ name v, m.find? name = some v → P name v

/-- Whatever is asked of all values holds in the empty map. -/
theorem all_empty (P : Text → α → Prop) : (∅ : NameMap α).All P := fun _ _ h => nomatch h

/-- What holds of all values holds after an insertion if it holds of the new one. -/
theorem All.insert {P : Text → α → Prop} {m : NameMap α} {name : Text} {v : α} (h : m.All P)
    (hv : P name v) : (m.insert name v).All P := by
  intro name' v' hfind
  rw [find?_insert] at hfind
  split at hfind
  · next hname =>
    obtain rfl := Option.some.inj hfind
    exact hname ▸ hv
  · exact h name' v' hfind

/-- What every written value satisfies holds of all entries. -/
theorem All.foldl_insert {β : Type} {P : Text → α → Prop} {l : List (Text × β)}
    {f : NameMap α → Text × β → α} {m : NameMap α} (hm : m.All P)
    (hf : ∀ e ∈ l, ∀ m, m.All P → P e.1 (f m e)) :
    (l.foldl (fun m e => m.insert e.1 (f m e)) m).All P := by
  induction l generalizing m with
  | nil => exact hm
  | cons e rest ih =>
    obtain ⟨hfirst, hrest⟩ := List.forall_mem_cons.1 hf
    exact ih (hm.insert (hfirst m hm)) hrest

/-- What holds of all changed values is what holds of all values once they are changed. -/
theorem all_mapValues_iff {β : Type} {P : Text → β → Prop} {f : α → β} {m : NameMap α} :
    (m.mapValues f).All P ↔ m.All fun name v => P name (f v) := by
  refine ⟨fun h name v hv => h name (f v) ?_, fun h name w hw => ?_⟩
  · rw [find?_mapValues, hv, Option.map_some]
  · rw [find?_mapValues, Option.map_eq_some_iff] at hw
    obtain ⟨v, hv, rfl⟩ := hw
    exact h name v hv

/-! ### Folds of writes -/

/-- Writing entries of different names, each joined with what is there, shows each at its name. -/
theorem find?_foldl_join (join : Option α → α → α) (l : List (Text × α))
    (hl : (l.map Prod.fst).Nodup) (m : NameMap α) (name : Text) :
    (l.foldl (fun m e => m.insert e.1 (join (m.find? e.1) e.2)) m).find? name =
      match l.lookup name with
      | none => m.find? name
      | some v => some (join (m.find? name) v) := by
  induction l generalizing m with
  | nil => rfl
  | cons e rest ih =>
    obtain ⟨key, v⟩ := e
    simp only [List.map_cons, List.nodup_cons] at hl
    rw [List.foldl_cons, ih hl.2, List.lookup_cons]
    by_cases hkey : name = key
    · subst hkey
      have hrest : rest.lookup name = none := by
        rw [List.lookup_eq_none_iff]
        intro e he
        exact bne_iff_ne.2 fun h => hl.1 (List.mem_map.2 ⟨e, he, h.symm⟩)
      simp [hrest, find?_insert]
    · simp [beq_eq_false_iff_ne.2 hkey, find?_insert, hkey]

/-- Where the names of a list differ, the map of the list has its entries. -/
theorem find?_ofList {l : List (Text × α)} (hl : (l.map Prod.fst).Nodup) (name : Text) :
    (ofList l).find? name = l.lookup name := by
  rw [ofList, find?_foldl_join (fun _ v => v) l hl]
  cases l.lookup name <;> rfl

/-- **A union of maps has the entries of both,** and joins the values of common names. -/
theorem find?_unionWith (f : α → α → α) (a b : NameMap α) (name : Text) :
    (unionWith f a b).find? name =
      match b.find? name with
      | none => a.find? name
      | some v => some (match a.find? name with | none => v | some u => f u v) :=
  find?_foldl_join (fun (u : Option α) (v : α) => match u with | none => v | some u => f u v)
    b.entries b.nodup_names a name

/-- Groups that are added to hold the values of their names in order. -/
theorem find?_foldl_addTo (l : List (Text × α)) (groups : NameMap (List α)) (name : Text) :
    ((l.foldl addTo groups).find? name).getD [] =
      (groups.find? name).getD [] ++ (l.filter fun e => e.1 == name).map Prod.snd := by
  induction l generalizing groups with
  | nil => simp
  | cons e rest ih =>
    rw [List.foldl_cons, ih, addTo, find?_insert]
    by_cases he : e.1 = name
    · simp [he]
    · simp [he, Ne.symm he]

/-- A map of groups has the names of the values that were grouped. -/
theorem mem_foldl_addTo {l : List (Text × α)} {groups : NameMap (List α)} {name : Text} :
    name ∈ l.foldl addTo groups ↔ name ∈ groups ∨ ∃ e ∈ l, e.1 = name := by
  induction l generalizing groups with
  | nil => simp
  | cons e rest ih =>
    rw [List.foldl_cons, ih, addTo, mem_insert, eq_comm]
    simp only [List.mem_cons, or_and_right, exists_or, exists_eq_left, or_assoc]
    exact or_left_comm

/-- Grouping has a name exactly if an entry has it. -/
theorem mem_group {l : List (Text × α)} {name : Text} :
    name ∈ group l ↔ ∃ e ∈ l, e.1 = name := by
  have hnone : name ∉ (∅ : NameMap (List α)) := by simp [mem_iff_isSome]
  rw [group, mem_foldl_addTo, or_iff_right hnone]

/-- **A group holds the values of its name in order.** -/
theorem find?_group (l : List (Text × α)) (name : Text) :
    ((group l).find? name).getD [] = (l.filter fun e => e.1 == name).map Prod.snd := by
  rw [group, find?_foldl_addTo]
  rfl

end NameMap

namespace NameSet

variable {a b : NameSet} {name other : Text}

/-- No name is in the empty set. -/
theorem not_mem_empty (name : Text) : name ∉ (∅ : NameSet) := by
  simp [NameMap.mem_iff_isSome]

/-- A set with a name added has that name and what it had. -/
theorem mem_add : other ∈ a.add name ↔ other = name ∨ other ∈ a := NameMap.mem_insert

/-- The set of a single name has that name only. -/
theorem mem_single : other ∈ single name ↔ other = name := by
  simp [single, mem_add, not_mem_empty]

/-- **A union has the names of both sets.** -/
theorem mem_union : name ∈ a ∪ b ↔ name ∈ a ∨ name ∈ b := by
  have h := NameMap.find?_unionWith (fun _ _ => ()) a b name
  change NameMap.find? (a ∪ b) name = _ at h
  rw [NameMap.mem_iff_isSome, NameMap.mem_iff_isSome, NameMap.mem_iff_isSome, h]
  cases b.find? name <;> simp

/-- A union of sets that have grown has grown. -/
theorem mem_union_mono {a' b' : NameSet} (ha : ∀ n ∈ a, n ∈ a') (hb : ∀ n ∈ b, n ∈ b') :
    ∀ n ∈ a ∪ b, n ∈ a' ∪ b' :=
  fun n hn => mem_union.2 ((mem_union.1 hn).imp (ha n) (hb n))

/-- **Two sets with the same members are equal.** -/
theorem ext (h : ∀ name, name ∈ a ↔ name ∈ b) : a = b := by
  refine NameMap.ext_find? fun name => ?_
  have hname := h name
  rw [NameMap.mem_iff_isSome, NameMap.mem_iff_isSome] at hname
  cases ha : a.find? name <;> cases hb : b.find? name <;> simp_all

end NameSet

end Gatehouse
