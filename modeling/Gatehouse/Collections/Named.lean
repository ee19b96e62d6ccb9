import Gatehouse.Text

/-!
# Maps and sets of names in canonical form

`NameMap α` keeps its entries in strictly increasing order of their names, compared by code point,
and `NameSet` is a map that carries no value.  The form is canonical: two maps with the same
lookups are equal (`NameMap.ext_find?`), so equality of sets of capabilities and of granted rights
is plain equality, and writing a set out in order is reading off its list.
-/

namespace Gatehouse

/-- A finite map from names, sorted by name. -/
structure NameMap (α : Type) where
  /-- Names with their values, in increasing order. -/
  entries : List (Text × α)
  /-- Every name is smaller than all later ones. -/
  sorted : entries.Pairwise fun a b => a.1 < b.1
deriving DecidableEq

namespace NameMap

variable {α β : Type}

/-- The map without entries. -/
def empty : NameMap α := ⟨[], List.Pairwise.nil⟩

instance : EmptyCollection (NameMap α) := ⟨empty⟩

instance : Inhabited (NameMap α) := ⟨∅⟩

/-- The names, in increasing order. -/
def names (m : NameMap α) : List Text := m.entries.map Prod.fst

/-- The number of names. -/
def size (m : NameMap α) : Nat := m.entries.length

/-- The value kept under a name. -/
def find? (m : NameMap α) (name : Text) : Option α := m.entries.lookup name

/-- Whether a name is present. -/
def contains (m : NameMap α) (name : Text) : Bool := (m.find? name).isSome

instance : Membership Text (NameMap α) := ⟨fun m name => m.contains name = true⟩

instance (name : Text) (m : NameMap α) : Decidable (name ∈ m) :=
  inferInstanceAs (Decidable (m.contains name = true))

/-- Writes a value into a sorted list of entries. -/
def insertEntry (name : Text) (v : α) : List (Text × α) → List (Text × α)
  | [] => [(name, v)]
  | e :: rest =>
    if name < e.1 then (name, v) :: e :: rest
    else if name = e.1 then (name, v) :: rest
    else e :: insertEntry name v rest

/-- An entry after an insertion is the new one or was there. -/
theorem mem_insertEntry {name : Text} {v : α} {e : Text × α} :
    ∀ {l : List (Text × α)}, e ∈ insertEntry name v l → e = (name, v) ∨ e ∈ l
  | [], h => by simpa [insertEntry] using h
  | d :: rest, h => by
    unfold insertEntry at h
    split at h
    · simpa using h
    · split at h
      · rcases List.mem_cons.1 h with h | h
        · exact .inl h
        · exact .inr (List.mem_cons_of_mem _ h)
      · rcases List.mem_cons.1 h with h | h
        · exact .inr (h ▸ List.mem_cons_self)
        · exact (mem_insertEntry h).imp_right (List.mem_cons_of_mem _)

/-- An insertion keeps the entries in the order of their names. -/
theorem pairwise_insertEntry (name : Text) (v : α) :
    ∀ {l : List (Text × α)}, l.Pairwise (fun a b => a.1 < b.1) →
      (insertEntry name v l).Pairwise fun a b => a.1 < b.1
  | [], _ => by simp [insertEntry]
  | d :: rest, h => by
    rw [List.pairwise_cons] at h
    unfold insertEntry
    split
    · next hlt =>
      refine List.pairwise_cons.2 ⟨fun b hb => ?_, List.pairwise_cons.2 h⟩
      rcases List.mem_cons.1 hb with hb | hb
      · exact hb ▸ hlt
      · exact Text.lt_trans hlt (h.1 b hb)
    · next hlt =>
      split
      · next heq => exact List.pairwise_cons.2 ⟨fun b hb => heq ▸ h.1 b hb, h.2⟩
      · next hne =>
        refine List.pairwise_cons.2 ⟨fun b hb => ?_, pairwise_insertEntry name v h.2⟩
        rcases mem_insertEntry hb with hb | hb
        · have hle : d.1 ≤ name := Text.not_lt.1 hlt
          rcases Decidable.em (d.1 < name) with hd | hd
          · exact hb ▸ hd
          · exact absurd (Text.le_antisymm (Text.not_lt.1 hd) hle) hne
        · exact h.1 b hb

/-- Writes a value under a name. -/
def insert (m : NameMap α) (name : Text) (v : α) : NameMap α :=
  ⟨insertEntry name v m.entries, pairwise_insertEntry name v m.sorted⟩

/-- Writes the entries of a list one after the other: the last value of a name stays. -/
def ofList (l : List (Text × α)) : NameMap α :=
  l.foldl (fun m e => m.insert e.1 e.2) ∅

/-- Applies `f` to every value. -/
def mapValues (f : α → β) (m : NameMap α) : NameMap β :=
  ⟨m.entries.map fun e => (e.1, f e.2), by
    simpa [List.pairwise_map] using m.sorted⟩

/-- Adds the entries of `b` to `a`; where both know a name, `f` joins the two values. -/
def unionWith (f : α → α → α) (a b : NameMap α) : NameMap α :=
  b.entries.foldl
    (fun m e => m.insert e.1 (match m.find? e.1 with | none => e.2 | some v => f v e.2)) a

/-- Adds a value behind those of its name. -/
def addTo (groups : NameMap (List α)) (e : Text × α) : NameMap (List α) :=
  groups.insert e.1 ((groups.find? e.1).getD [] ++ [e.2])

/-- Groups values by their names, each group in order. -/
def group (l : List (Text × α)) : NameMap (List α) := l.foldl addTo ∅

/-! ### Lookup after each operation -/

/-- Nothing is found in the empty map. -/
@[simp] theorem find?_empty (name : Text) : (∅ : NameMap α).find? name = none := rfl

/-- After an insertion, the name has the new value and other names have theirs. -/
theorem lookup_insertEntry (name name' : Text) (v : α) (l : List (Text × α)) :
    (insertEntry name v l).lookup name' = if name' = name then some v else l.lookup name' := by
  induction l with
  | nil => grind [insertEntry]
  | cons e l ih => grind [insertEntry]

/-- A write shows at its name and nowhere else. -/
theorem find?_insert (m : NameMap α) (name name' : Text) (v : α) :
    (m.insert name v).find? name' = if name' = name then some v else m.find? name' :=
  lookup_insertEntry name name' v m.entries

/-- A map with changed values has them under the same names. -/
theorem find?_mapValues (f : α → β) (m : NameMap α) (name : Text) :
    (m.mapValues f).find? name = (m.find? name).map f := by
  simp only [find?, mapValues]
  induction m.entries with
  | nil => rfl
  | cons e rest ih =>
    obtain ⟨key, v⟩ := e
    simp only [List.map_cons, List.lookup_cons, ih]
    cases name == key <;> rfl

/-- A name is present exactly if it is among the names. -/
theorem contains_eq (m : NameMap α) (name : Text) : m.contains name = m.names.contains name := by
  simp only [contains, find?, names]
  induction m.entries with
  | nil => rfl
  | cons e rest ih =>
    obtain ⟨key, v⟩ := e
    simp only [List.lookup_cons, List.map_cons, List.contains_cons, ← ih]
    cases name == key <;> rfl

/-- A name before all others is not found. -/
theorem lookup_eq_none_of_lt {l : List (Text × α)} {name : Text}
    (h : ∀ e ∈ l, name < e.1) : l.lookup name = none := by
  induction l with
  | nil => rfl
  | cons e l ih =>
    have hne : name ≠ e.1 := fun h' => Text.lt_irrefl _ (h' ▸ h e List.mem_cons_self)
    rw [List.lookup_cons, beq_eq_false_iff_ne.2 hne]
    exact ih fun d hd => h d (List.mem_cons_of_mem _ hd)

/-- Two sorted lists with the same lookups are the same list. -/
theorem eq_of_lookup_eq : ∀ {l₁ l₂ : List (Text × α)},
    l₁.Pairwise (fun a b => a.1 < b.1) → l₂.Pairwise (fun a b => a.1 < b.1) →
    (∀ name, l₁.lookup name = l₂.lookup name) → l₁ = l₂
  | [], [], _, _, _ => rfl
  | [], (name, _) :: _, _, _, h => by simpa using h name
  | (name, _) :: _, [], _, _, h => by simpa using h name
  | (n₁, v₁) :: t₁, (n₂, v₂) :: t₂, h₁, h₂, h => by
    rw [List.pairwise_cons] at h₁ h₂
    have key : n₁ = n₂ := by
      rcases Decidable.em (n₁ < n₂) with hlt | hge
      · have hl := h n₁
        rw [@lookup_eq_none_of_lt _ ((n₂, v₂) :: t₂) n₁ fun e he => by
          rcases List.mem_cons.1 he with he | he
          · exact he ▸ hlt
          · exact Text.lt_trans hlt (h₂.1 e he)] at hl
        simp at hl
      · rcases Decidable.em (n₂ < n₁) with hlt | hge'
        · have hl := h n₂
          rw [@lookup_eq_none_of_lt _ ((n₁, v₁) :: t₁) n₂ fun e he => by
            rcases List.mem_cons.1 he with he | he
            · exact he ▸ hlt
            · exact Text.lt_trans hlt (h₁.1 e he)] at hl
          simp at hl
        · exact Text.le_antisymm (Text.not_lt.1 hge') (Text.not_lt.1 hge)
    subst key
    have hv : v₁ = v₂ := by simpa using h n₁
    subst hv
    congr 1
    refine eq_of_lookup_eq h₁.2 h₂.2 fun name => ?_
    have hn := h name
    by_cases hname : name = n₁
    · subst hname
      rw [lookup_eq_none_of_lt h₁.1, lookup_eq_none_of_lt h₂.1]
    · simpa [List.lookup_cons, beq_eq_false_iff_ne.2 hname] using hn

/-- **The form is canonical:** maps with the same lookups are equal. -/
theorem ext_find? {a b : NameMap α} (h : ∀ name, a.find? name = b.find? name) : a = b := by
  cases a; cases b
  congr
  exact eq_of_lookup_eq ‹_› ‹_› h

end NameMap

/-- A finite set of names: a map that carries no value. -/
abbrev NameSet := NameMap Unit

namespace NameSet

/-- Adds a name. -/
def add (s : NameSet) (name : Text) : NameSet := NameMap.insert s name ()

/-- The set with one name. -/
def single (name : Text) : NameSet := add ∅ name

/-- The set of the names in a list. -/
def ofNames (l : List Text) : NameSet := l.foldl add ∅

/-- The names of both sets. -/
def union (a b : NameSet) : NameSet := NameMap.unionWith (fun _ _ => ()) a b

instance : Union NameSet := ⟨union⟩

end NameSet

/-- The names of a list in increasing order, repetitions kept. -/
def sortNames (l : List Text) : List Text := l.mergeSort fun a b => decide (a ≤ b)

end Gatehouse
