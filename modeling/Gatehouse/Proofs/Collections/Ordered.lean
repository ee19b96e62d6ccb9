import Gatehouse.Collections.Ordered
import Mathlib.Data.List.Nodup
import Mathlib.Data.List.Perm.Basic

/-!
# Entries of maps in order of insertion

An ordered map is known by its keys, in their order, and by its lookups (`OrderedMap.ext_find?`), so
that writes of a key replace each other (`OrderedMap.insert_insert`) and writes of different keys may
change places where no new key comes in (`OrderedMap.insert_comm`).  A new key is one more entry, at
the end, and a key that is dropped is one less, with the entries around it left as they are
(`OrderedMap.size_insert`, `OrderedMap.entries_erase_of_entries_eq`, `OrderedMap.size_erase`).
-/

namespace Gatehouse

namespace OrderedMap

variable {κ α : Type} [DecidableEq κ] {m m' : OrderedMap κ α} {k k' : κ} {v : α} {d : κ × α}
  {front behind : List (κ × α)}

/-- The test for a key decides whether it is among the keys. -/
theorem contains_iff_mem : m.contains k = true ↔ k ∈ m.keys := List.contains_iff_mem

/-! ### Lookups -/

/-- What is left of a map when entries are filtered was there before. -/
theorem find?_of_filter {p : κ → α → Bool} (h : (m.filter p).find? k = some v) :
    m.find? k = some v := by
  rw [find?_filter, Option.filter_eq_some_iff] at h
  exact h.1

/-- What is left of a map when a key is erased was there before. -/
theorem find?_of_erase (h : (m.erase k').find? k = some v) : m.find? k = some v :=
  find?_of_filter h

/-- Two maps with the same keys in the same order and the same lookups are the same map. -/
theorem ext_find? (hkeys : m.keys = m'.keys) (h : ∀ k, m.find? k = m'.find? k) : m = m' := by
  have hentries : ∀ m : OrderedMap κ α,
      m.entries = m.keys.filterMap fun k => (m.find? k).map fun v => (k, v) := by
    intro m
    rw [keys, List.filterMap_map]
    conv_lhs => rw [← List.filterMap_some (l := m.entries)]
    refine List.filterMap_congr fun e he => ?_
    rw [Function.comp, find?_eq_some_of_mem he, Option.map_some]
  have hsame : m.entries = m'.entries := by
    rw [hentries m, hentries m', hkeys]
    simp only [h]
  cases m
  cases m'
  congr

/-- Of two writes of a key the second one stays. -/
theorem insert_insert (m : OrderedMap κ α) (k : κ) (v w : α) :
    (m.insert k v).insert k w = m.insert k w := by
  refine ext_find? ?_ fun k' => ?_
  · simp only [keys_insert]
    split <;> simp_all
  · simp only [find?_insert]
    split <;> rfl

/-- Writes of different keys may be made in any order, if one of them is present. -/
theorem insert_comm (h : k ≠ k') (hk : k ∈ m.keys) (v w : α) :
    (m.insert k v).insert k' w = (m.insert k' w).insert k v := by
  refine ext_find? ?_ fun other => ?_
  · simp only [keys_insert, if_pos hk]
    split <;> simp [hk]
  · simp only [find?_insert]
    split <;> split <;> simp_all

/-- Writing what is there changes nothing. -/
theorem insert_find? (h : m.find? k = some v) : m.insert k v = m := by
  have hk : k ∈ m.keys := isSome_find?_iff.1 (by rw [h]; rfl)
  refine ext_find? ?_ fun other => ?_
  · rw [keys_insert, if_pos hk]
  · rw [find?_insert]
    split <;> simp_all

/-! ### Entries -/

/-- A write adds an entry for a new key. -/
theorem size_insert (m : OrderedMap κ α) (k : κ) (v : α) :
    (m.insert k v).size = if k ∈ m.keys then m.size else m.size + 1 := by
  have hkeys := congrArg List.length (m.keys_insert k v)
  rw [keys, List.length_map] at hkeys
  rw [size, hkeys]
  split <;> simp [keys, size]

/-- A new key comes last. -/
theorem entries_insert_of_not_mem (h : k ∉ m.keys) (v : α) :
    (m.insert k v).entries = m.entries ++ [(k, v)] := by
  rw [insert, dif_neg h]

omit [DecidableEq κ] in
/-- What stands around an entry has other keys. -/
theorem ne_of_entries_eq (h : m.entries = front ++ d :: behind) :
    ∀ d' ∈ front ++ behind, d'.1 ≠ d.1 := by
  have hnodup := m.keys_nodup
  rw [h, List.map_append, List.map_cons, List.nodup_middle, List.nodup_cons, ← List.map_append]
    at hnodup
  intro d' hd' hk
  have hmem : d'.1 ∈ (front ++ behind).map Prod.fst := List.mem_map_of_mem hd'
  exact hnodup.1 (hk ▸ hmem)

/-- Without a key, what stands around its entry is left. -/
theorem entries_erase_of_entries_eq (h : m.entries = front ++ d :: behind) :
    (m.erase d.1).entries = front ++ behind := by
  have hkept : (front ++ behind).filter (fun d' => decide (d'.1 ≠ d.1)) = front ++ behind :=
    List.filter_eq_self.2 fun d' hd' => decide_eq_true (ne_of_entries_eq h d' hd')
  change m.entries.filter (fun d' => decide (d'.1 ≠ d.1)) = front ++ behind
  rw [h, List.filter_append, List.filter_cons_of_neg (by simp), ← List.filter_append, hkept]

/-- What is left without a key. -/
theorem size_erase (m : OrderedMap κ α) (k : κ) :
    (m.erase k).size + (if k ∈ m.keys then 1 else 0) = m.size := by
  by_cases hk : k ∈ m.keys
  · rw [if_pos hk]
    obtain ⟨d, hd, rfl⟩ := List.mem_map.1 hk
    obtain ⟨front, behind, hparts⟩ := List.append_of_mem hd
    rw [size, entries_erase_of_entries_eq hparts, size, hparts]
    simp [Nat.add_assoc]
  · have hkept : m.entries.filter (fun d => decide (d.1 ≠ k)) = m.entries :=
      List.filter_eq_self.2 fun d hd => decide_eq_true fun h => hk (h ▸ List.mem_map_of_mem hd)
    rw [if_neg hk]
    exact congrArg List.length hkept

/-- What is left without some of the keys. -/
theorem size_filter_not_contains (m : OrderedMap κ α) {ks : List κ} (h : ks.Nodup)
    (hsub : ∀ k ∈ ks, k ∈ m.keys) :
    (m.filter fun k _ => !ks.contains k).size + ks.length = m.size := by
  have hperm : (m.keys.filter fun k => ks.contains k).Perm ks := by
    refine (List.perm_ext_iff_of_nodup (m.keys_nodup.filter _) h).2 fun k => ?_
    simp only [List.mem_filter, List.contains_iff_mem]
    exact and_iff_right_of_imp (hsub k)
  have hparts := List.length_eq_length_filter_add (l := m.keys) fun k => ks.contains k
  have hleft : (m.filter fun k _ => !ks.contains k).size =
      (m.keys.filter fun k => !ks.contains k).length := by
    rw [keys, List.filter_map, List.length_map]
    rfl
  have hsize : m.size = m.keys.length := (List.length_map _).symm
  rw [hperm.length_eq] at hparts
  omega

end OrderedMap

end Gatehouse
