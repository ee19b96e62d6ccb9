/-!
# Maps in order of insertion

`OrderedMap κ α` keeps one value for each key, oldest key first.  Writing to a present key changes
its value and not its place, as a registry that reports "in order of definition" needs.  Uniqueness
of keys is part of the type.  Main statements: what a lookup answers after each operation
(`find?_insert`, `find?_erase`, `find?_filter`).
-/

namespace Gatehouse

/-- A finite map as the list of its entries, oldest key first. -/
structure OrderedMap (κ α : Type) where
  /-- Keys with their values, oldest first. -/
  entries : List (κ × α)
  /-- No key occurs twice. -/
  keys_nodup : (entries.map Prod.fst).Nodup
deriving DecidableEq

namespace OrderedMap

variable {κ α β : Type}

/-- The map without entries. -/
def empty : OrderedMap κ α := ⟨[], List.nodup_nil⟩

instance : EmptyCollection (OrderedMap κ α) := ⟨empty⟩

instance : Inhabited (OrderedMap κ α) := ⟨∅⟩

/-- The keys, oldest first. -/
def keys (m : OrderedMap κ α) : List κ := m.entries.map Prod.fst

/-- The values, in the order of their keys. -/
def values (m : OrderedMap κ α) : List α := m.entries.map Prod.snd

/-- The number of entries. -/
def size (m : OrderedMap κ α) : Nat := m.entries.length

/-- Keeps the entries that satisfy `p`. -/
def filter (p : κ → α → Bool) (m : OrderedMap κ α) : OrderedMap κ α :=
  ⟨m.entries.filter fun e => p e.1 e.2,
    m.keys_nodup.sublist (List.Sublist.map _ List.filter_sublist)⟩

/-- Applies `f` to every value. -/
def mapValues (f : α → β) (m : OrderedMap κ α) : OrderedMap κ β :=
  ⟨m.entries.map fun e => (e.1, f e.2), by
    simpa [List.map_map, Function.comp_def] using m.keys_nodup⟩

variable [DecidableEq κ]

/-- The value kept under a key. -/
def find? (m : OrderedMap κ α) (k : κ) : Option α := m.entries.lookup k

/-- Whether a key is present. -/
def contains (m : OrderedMap κ α) (k : κ) : Bool := m.keys.contains k

/-- Removes a key. -/
def erase (m : OrderedMap κ α) (k : κ) : OrderedMap κ α := m.filter fun k' _ => k' ≠ k

/-- The entries with the value of one key replaced in its place. -/
def replaceEntry (k : κ) (v : α) (l : List (κ × α)) : List (κ × α) :=
  l.map fun e => (e.1, if e.1 = k then v else e.2)

/-- Writes a value: a present key keeps its place, a new one comes last. -/
def insert (m : OrderedMap κ α) (k : κ) (v : α) : OrderedMap κ α :=
  if h : k ∈ m.keys then
    ⟨replaceEntry k v m.entries, by
      simpa [replaceEntry, List.map_map, Function.comp_def] using m.keys_nodup⟩
  else
    ⟨m.entries ++ [(k, v)], by
      simpa [List.nodup_append, keys] using ⟨m.keys_nodup, fun a x hx e => h (by
        exact List.mem_map.2 ⟨(a, x), hx, e⟩)⟩⟩

/-- Writes the entries of a list one after the other: a repeated key keeps its first place and its
last value. -/
def ofList (l : List (κ × α)) : OrderedMap κ α :=
  l.foldl (fun m e => m.insert e.1 e.2) ∅

/-- The keys of `l` without repetitions, each at its first occurrence. -/
def distinct (l : List κ) : List κ :=
  l.foldl (fun seen k => if k ∈ seen then seen else seen ++ [k]) []

/-! ### Lookup after each operation -/

/-- Nothing is found for what is no key. -/
theorem find?_eq_none_iff {m : OrderedMap κ α} {k : κ} : m.find? k = none ↔ k ∉ m.keys := by
  unfold find? keys
  generalize m.entries = l
  induction l with
  | nil => simp
  | cons e l ih =>
    obtain ⟨k', v⟩ := e
    by_cases h : k = k'
    · simp [h]
    · rw [List.lookup_cons, beq_eq_false_iff_ne.2 h, List.map_cons, List.mem_cons, not_or]
      exact ih.trans ⟨fun hm => ⟨h, hm⟩, And.right⟩

/-- Something is found exactly for the keys. -/
theorem isSome_find?_iff {m : OrderedMap κ α} {k : κ} : (m.find? k).isSome ↔ k ∈ m.keys := by
  rw [← Decidable.not_iff_not, ← find?_eq_none_iff]
  cases m.find? k <;> simp

/-- What is found is in an entry. -/
theorem mem_of_find?_eq_some {m : OrderedMap κ α} {k : κ} {v : α} (h : m.find? k = some v) :
    (k, v) ∈ m.entries := by
  unfold find? at h
  generalize m.entries = l at h ⊢
  induction l with
  | nil => simp at h
  | cons e l ih =>
    obtain ⟨k', v'⟩ := e
    by_cases hk : k = k'
    · simp [hk] at h; simp [hk, h]
    · rw [List.lookup_cons, beq_eq_false_iff_ne.2 hk] at h
      exact List.mem_cons_of_mem _ (ih h)

/-- Keys being unique, an entry of the list is the answer of a lookup. -/
theorem find?_eq_some_of_mem {m : OrderedMap κ α} {k : κ} {v : α} (h : (k, v) ∈ m.entries) :
    m.find? k = some v := by
  have hn := m.keys_nodup
  unfold find?
  generalize m.entries = l at h hn ⊢
  induction l with
  | nil => simp at h
  | cons e l ih =>
    obtain ⟨k', v'⟩ := e
    simp only [List.map_cons, List.nodup_cons] at hn
    rcases List.mem_cons.1 h with h | h
    · cases h; simp
    · have hk : k ≠ k' := fun e => hn.1 (List.mem_map.2 ⟨(k, v), h, e⟩)
      rw [List.lookup_cons, beq_eq_false_iff_ne.2 hk]
      exact ih h hn.2

/-- What is found for a key is what its entry says. -/
theorem find?_eq_some_iff {m : OrderedMap κ α} {k : κ} {v : α} :
    m.find? k = some v ↔ (k, v) ∈ m.entries :=
  ⟨mem_of_find?_eq_some, find?_eq_some_of_mem⟩

/-- Nothing is found in the empty map. -/
@[simp] theorem find?_empty (k : κ) : (∅ : OrderedMap κ α).find? k = none := rfl

/-- Replacing the value of a key changes what is found for it, if it is there. -/
theorem lookup_replaceEntry (k k' : κ) (v : α) (l : List (κ × α)) :
    (replaceEntry k v l).lookup k' =
      if k' = k then (l.lookup k).map fun _ => v else l.lookup k' := by
  induction l with
  | nil => simp [replaceEntry]
  | cons e l ih =>
    simp only [replaceEntry, List.map_cons, List.lookup_cons] at ih ⊢
    by_cases hk : k' = e.1 <;> by_cases he : k = e.1 <;> grind

/-- An entry at the end is found where there is none before. -/
theorem lookup_append_single (k k' : κ) (v : α) (l : List (κ × α)) :
    (l ++ [(k, v)]).lookup k' = (l.lookup k').or (if k' = k then some v else none) := by
  induction l with
  | nil => grind
  | cons e l ih => grind

/-- A write shows at its key and nowhere else. -/
theorem find?_insert (m : OrderedMap κ α) (k k' : κ) (v : α) :
    (m.insert k v).find? k' = if k' = k then some v else m.find? k' := by
  unfold insert
  split
  · next h =>
    obtain ⟨u, hu⟩ := Option.isSome_iff_exists.1 (isSome_find?_iff.2 h)
    simp only [find?] at hu
    simp [find?, lookup_replaceEntry, hu]
  · next h =>
    have hn := find?_eq_none_iff.2 h
    simp only [find?] at hn
    by_cases hk : k' = k <;> simp [find?, lookup_append_single, hk, hn]

/-- An insertion adds the key at the end, unless it is there. -/
theorem keys_insert (m : OrderedMap κ α) (k : κ) (v : α) :
    (m.insert k v).keys = if k ∈ m.keys then m.keys else m.keys ++ [k] := by
  unfold insert
  split
  · next h => simp [keys, replaceEntry, List.map_map, Function.comp_def]
  · next h => simp [keys]

/-- Filtering keeps what is found if it passes. -/
theorem find?_filter (p : κ → α → Bool) (m : OrderedMap κ α) (k : κ) :
    (m.filter p).find? k = (m.find? k).filter (p k) := by
  apply Option.ext
  intro v
  simp [find?_eq_some_iff, filter, Option.filter_eq_some_iff]

/-- Erasing a key leaves what is found for the others. -/
theorem find?_erase (m : OrderedMap κ α) (k k' : κ) :
    (m.erase k).find? k' = if k' = k then none else m.find? k' := by
  rw [erase, find?_filter]
  by_cases h : k' = k
  · simp [h]
  · cases m.find? k' <;> simp [h]

/-- Changing all values changes what is found. -/
theorem find?_mapValues (f : α → β) (m : OrderedMap κ α) (k : κ) :
    (m.mapValues f).find? k = (m.find? k).map f := by
  simp only [find?, mapValues]
  generalize m.entries = l
  induction l with
  | nil => rfl
  | cons e l ih =>
    obtain ⟨k', v⟩ := e
    simp only [List.map_cons, List.lookup_cons, ih]
    cases k == k' <;> rfl

end OrderedMap

end Gatehouse
