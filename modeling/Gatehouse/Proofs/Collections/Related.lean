import Gatehouse.Proofs.Collections.NameSet
import Mathlib.Data.List.Forall2

/-!
# Maps that are related entry by entry

Two maps are related if they have the same names, and related values under each of them
(`NameMap.Rel`).  Writing related values into related maps gives related maps, and so does adding
related entries to groups.  Main statement: folding related rules into related maps gives related
maps (`NameMap.Rel.foldl_insert`), which is what merging policies comes down to.
-/

namespace Gatehouse

namespace NameMap

variable {α β : Type} {H : α → β → Prop}

/-- The same names, with related values. -/
def Rel (H : α → β → Prop) (m : NameMap α) (m' : NameMap β) : Prop :=
  List.Forall₂ (fun e e' => e.1 = e'.1 ∧ H e.2 e'.2) m.entries m'.entries

namespace Rel

variable {m : NameMap α} {m' : NameMap β} {name : Text} {v : α} {v' : β}

/-- Empty maps are related. -/
theorem empty : Rel H (∅ : NameMap α) (∅ : NameMap β) := .nil

/-- What stands under a name is related. -/
theorem find? (h : m.Rel H m') (name : Text) : Option.Rel H (m.find? name) (m'.find? name) := by
  unfold Rel at h
  unfold NameMap.find?
  generalize m.entries = l at h
  generalize m'.entries = l' at h
  induction h with
  | nil => exact .none
  | @cons e e' _ _ he _ ih =>
    obtain ⟨key, v⟩ := e
    obtain ⟨_, v'⟩ := e'
    obtain ⟨rfl, hv⟩ := he
    simp only [List.lookup_cons]
    cases name == key
    · exact ih
    · exact .some hv

/-- What stands under a name of one map has something related to it under that name. -/
theorem exists_find? (h : m.Rel H m') (hfind : m.find? name = some v) :
    ∃ v', m'.find? name = some v' ∧ H v v' := by
  have hrel := h.find? name
  rw [hfind] at hrel
  rcases hfind' : m'.find? name with _ | v' <;> rw [hfind'] at hrel <;> cases hrel
  next hv => exact ⟨v', rfl, hv⟩

/-- Related defaults stand in for what is missing. -/
theorem getD (h : m.Rel H m') {z : α} {z' : β} (hz : H z z') (name : Text) :
    H ((m.find? name).getD z) ((m'.find? name).getD z') := by
  have hrel := h.find? name
  generalize m.find? name = x at hrel
  generalize m'.find? name = x' at hrel
  cases hrel with
  | none => exact hz
  | some hv => exact hv

/-- Related maps stay so when related values are inserted under one name. -/
theorem insert (h : m.Rel H m') (hv : H v v') : (m.insert name v).Rel H (m'.insert name v') := by
  unfold Rel at h ⊢
  change List.Forall₂ _ (insertEntry name v m.entries) (insertEntry name v' m'.entries)
  generalize m.entries = l at h
  generalize m'.entries = l' at h
  induction h with
  | nil => exact .cons ⟨rfl, hv⟩ .nil
  | @cons e e' _ _ he hrest ih =>
    simp only [insertEntry, he.1]
    split
    · exact .cons ⟨rfl, hv⟩ (.cons he hrest)
    · split
      · exact .cons ⟨rfl, hv⟩ hrest
      · exact .cons he ih

/-- Maps that are related are so in every weaker way. -/
theorem mono {H' : α → β → Prop} (h : m.Rel H m') (hsub : ∀ v v', H v v' → H' v v') :
    m.Rel H' m' :=
  List.Forall₂.imp (fun _ _ he => ⟨he.1, hsub _ _ he.2⟩) h

/-- A relation of maps can be read the other way round. -/
theorem flip (h : m.Rel H m') : m'.Rel (fun v' v => H v v') m :=
  (List.Forall₂.flip h).imp fun _ _ he => ⟨he.1.symm, he.2⟩

/-- What every value of one map has follows from what every value of the other one has. -/
theorem all {P : Text → α → Prop} {Q : Text → β → Prop} (h : m.Rel H m') (hm : m.All P)
    (hsub : ∀ name v v', H v v' → P name v → Q name v') : m'.All Q := by
  intro name v' hfind
  obtain ⟨v, hv, hrel⟩ := h.flip.exists_find? hfind
  exact hsub name v v' hrel (hm name v hv)

/-- Related maps stay so when their values are changed alike. -/
theorem mapValues {γ δ : Type} {H' : γ → δ → Prop} {f : α → γ} {g : β → δ} (h : m.Rel H m')
    (hsub : ∀ v v', H v v' → H' (f v) (g v')) : (m.mapValues f).Rel H' (m'.mapValues g) := by
  refine List.forall₂_map_left_iff.2 (List.forall₂_map_right_iff.2 ?_)
  exact List.Forall₂.imp (fun _ _ he => ⟨he.1, hsub _ _ he.2⟩) h

/-- **Folding related rules into related maps gives related maps,** for policies one after the
other, resource by resource. -/
theorem foldl_insert {π π' ρ ρ' : Type} {G : ρ → ρ' → Prop} {z : α} {z' : β} {add : α → ρ → α}
    {add' : β → ρ' → β} {rules : π → NameMap (List ρ)} {rules' : π' → NameMap (List ρ')}
    (hz : H z z') (hadd : ∀ g g' r r', H g g' → G r r' → H (add g r) (add' g' r'))
    {policies : List π} {policies' : List π'} (hrules : List.Forall₂
      (fun p p' => (rules p).Rel (List.Forall₂ G) (rules' p')) policies policies')
    (h : m.Rel H m') :
    (policies.foldl (fun grants p => (rules p).entries.foldl (fun found e =>
      found.insert e.1 (e.2.foldl add ((found.find? e.1).getD z))) grants) m).Rel H
    (policies'.foldl (fun grants p => (rules' p).entries.foldl (fun found e =>
      found.insert e.1 (e.2.foldl add' ((found.find? e.1).getD z'))) grants) m') := by
  refine List.rel_foldl (P := Rel H) ?_ h hrules
  intro grants grants' hgrants p p' hp
  refine List.rel_foldl (P := Rel H) ?_ hgrants hp
  rintro found found' hfound ⟨key, l⟩ ⟨_, l'⟩ ⟨rfl, hl⟩
  refine hfound.insert (List.rel_foldl (P := H) ?_ (hfound.getD hz key) hl)
  exact fun g g' hg r r' hr => hadd g g' r r' hg hr

end Rel

/-- The map of entries that are related to those of a map is related to it. -/
theorem rel_ofList {m : NameMap α} {l : List (Text × β)}
    (h : List.Forall₂ (fun e e' => e.1 = e'.1 ∧ H e.2 e'.2) m.entries l) : m.Rel H (ofList l) := by
  have hself : ofList m.entries = m := ext_find? fun name => find?_ofList m.nodup_names name
  have hrel : (ofList m.entries).Rel H (ofList l) := by
    refine List.rel_foldl (P := Rel H) ?_ Rel.empty h
    rintro found found' hfound ⟨key, v⟩ ⟨_, v'⟩ ⟨rfl, hv⟩
    exact hfound.insert hv
  rwa [hself] at hrel

/-- Related entries, grouped by their names, give related groups. -/
theorem rel_group {l : List (Text × α)} {l' : List (Text × β)}
    (h : List.Forall₂ (fun e e' => e.1 = e'.1 ∧ H e.2 e'.2) l l') :
    (group l).Rel (List.Forall₂ H) (group l') := by
  refine List.rel_foldl (P := Rel (List.Forall₂ H)) ?_ Rel.empty h
  rintro groups groups' hgroups ⟨key, v⟩ ⟨_, v'⟩ ⟨rfl, hv⟩
  exact hgroups.insert (List.rel_append (hgroups.getD .nil key) (.cons hv .nil))

end NameMap

end Gatehouse
