import Gatehouse.Model.Basic
import Gatehouse.Proofs.Alias.Expansion

/-!
# Validated models

What a validated model says of the names of its resources.  A requested name means itself, or what
the alias of that name stands for (`Definition.Means`).  Main statements: a validated model carries
the expansions of all of its definitions (`ValidModel.IsValidated.expansions_eq`), and expanding
requested names gives exactly what they mean (`ValidModel.IsValidated.expandNames_spec`).
-/

namespace Gatehouse

/-- What a requested name means: an alias stands for capabilities, any other name for itself. -/
def Definition.Means (d : Definition) (name c : Text) : Prop :=
  name ∈ d.capabilities ∧ name ∉ d.aliases.keys ∧ c = name ∨ d.StandsFor name c

namespace Registry

/-- The expansions of several resources are those of each of them. -/
theorem find?_of_expansionsOf {l : List (Text × Definition)} {m : NameMap (NameMap NameSet)}
    (hl : (l.map Prod.fst).Nodup) (h : expansionsOf l = .ok m) {resource : Text} {d : Definition}
    (hd : (resource, d) ∈ l) :
    ∃ found, m.find? resource = some found ∧ d.expansions resource = .ok found := by
  induction l generalizing m with
  | nil => cases hd
  | cons e rest ih =>
    obtain ⟨first, first_d⟩ := e
    simp only [List.map_cons, List.nodup_cons] at hl
    unfold expansionsOf at h
    rcases hx : first_d.expansions first with f | found
    · rw [hx] at h
      cases h
    · rw [hx] at h
      dsimp only at h
      rcases hrest : expansionsOf rest with f | more
      · rw [hrest] at h
        cases h
      · rw [hrest] at h
        obtain rfl := Except.ok.inj h
        rcases List.mem_cons.1 hd with hd | hd
        · cases hd
          exact ⟨found, by simp [NameMap.find?_insert], hx⟩
        · obtain ⟨found', hfind, hexp⟩ := ih hl.2 hrest hd
          have hne : resource ≠ first := fun e => hl.1 (e ▸ List.mem_map.2 ⟨_, hd, rfl⟩)
          exact ⟨found', by simp [NameMap.find?_insert, hne, hfind], hexp⟩

end Registry

namespace ValidModel

/-- The model is what validating its definitions gives. -/
def IsValidated (m : ValidModel) : Prop := (Model.draft m.resources).validate = .ok m

variable {m : ValidModel} {resource name c : Text} {d : Definition}

/-- What validating a draft gives is validated, and has the resources of the draft. -/
theorem isValidated_of_validate {r : Registry} (h : (Model.draft r).validate = .ok m) :
    m.IsValidated ∧ m.resources = r := by
  have hr : m.resources = r := by
    unfold Model.validate at h
    dsimp only at h
    split at h
    · cases h
    · exact (Except.ok.inj h) ▸ rfl
  exact ⟨by rw [IsValidated, hr, h], hr⟩

/-- The expansions of a resource that a model carries. -/
def expansionsFor (m : ValidModel) (resource : Text) : NameMap NameSet :=
  (m.expansions.find? resource).getD ∅

namespace IsValidated

/-- A validated model has the expansions and the fingerprint of its resources. -/
theorem parts (hm : m.IsValidated) :
    Registry.expansionsOf m.resources.entries = .ok m.expansions ∧
      m.fingerprint = m.resources.fingerprint := by
  have h := hm
  unfold IsValidated Model.validate at h
  dsimp only at h
  split at h
  · cases h
  · next e he =>
    have hm' := Except.ok.inj h
    rw [he, ← hm']
    exact ⟨rfl, rfl⟩

/-- The fingerprint is the digest of the definitions. -/
theorem fingerprint_eq (hm : m.IsValidated) : m.fingerprint = m.resources.fingerprint :=
  hm.parts.2

/-- **A validated model carries the expansions of each of its resources.** -/
theorem expansions_eq (hm : m.IsValidated) (hd : m.resources.find? resource = some d) :
    d.expansions resource = .ok (m.expansionsFor resource) := by
  obtain ⟨found, hfind, hexp⟩ := Registry.find?_of_expansionsOf m.resources.keys_nodup hm.parts.1
    (OrderedMap.find?_eq_some_iff.1 hd)
  rw [expansionsFor, hfind, hexp]
  rfl

/-- The definitions of a validated model are sound, and it remembers what their aliases stand
for. -/
theorem spec (hm : m.IsValidated) (hd : m.resources.find? resource = some d) :
    d.Sound ∧ d.Remembered (m.expansionsFor resource) ∧
      ∀ name ∈ d.aliases.keys, name ∈ m.expansionsFor resource := by
  have h := d.expansions_spec resource
  rwa [hm.expansions_eq hd] at h

/-- The names that have an expansion are the aliases. -/
theorem mem_expansionsFor (hm : m.IsValidated) (hd : m.resources.find? resource = some d) :
    name ∈ m.expansionsFor resource ↔ name ∈ d.aliases.keys := by
  obtain ⟨-, hmemo, hall⟩ := hm.spec hd
  refine ⟨fun h => ?_, hall name⟩
  obtain ⟨found, hfound⟩ := NameMap.mem_iff_exists.1 h
  exact (hmemo name found hfound).1.mem_keys

/-- What a requested name is expanded to, or that it is unknown. -/
theorem expandName_spec (hm : m.IsValidated) (hd : m.resources.find? resource = some d)
    (name : Text) :
    match d.expandName (m.expansionsFor resource) resource name with
    | .ok found => (name ∈ d.aliases.keys ∨ name ∈ d.capabilities) ∧
        ∀ c, c ∈ found ↔ d.Means name c
    | .error f => f = .unknownCapability resource name .null ∧ name ∉ d.aliases.keys ∧
        name ∉ d.capabilities := by
  obtain ⟨-, hmemo, -⟩ := hm.spec hd
  unfold Definition.expandName
  rcases hfind : (m.expansionsFor resource).find? name with _ | found
  · have hkeys : name ∉ d.aliases.keys := by
      rw [← hm.mem_expansionsFor hd, NameMap.not_mem_iff]
      exact hfind
    by_cases hcap : name ∈ d.capabilities
    · rw [if_pos hcap]
      refine ⟨.inr hcap, fun c => ?_⟩
      have hnot : ¬ d.StandsFor name c := fun h => by
        rcases Definition.standsFor_iff.1 h with ⟨_, hname, -⟩ | ⟨_, ⟨_, hname, -⟩, -⟩ <;>
          exact hkeys (Definition.mem_keys_of_find? hname)
      simp [Definition.Means, hcap, hkeys, hnot, NameSet.mem_single]
    · rw [if_neg hcap]
      exact ⟨rfl, hkeys, hcap⟩
  · obtain ⟨hexp, hstands⟩ := hmemo name found hfind
    refine ⟨.inl hexp.mem_keys, fun c => ?_⟩
    simp [Definition.Means, hexp.mem_keys, hstands]

/-- **Requested names are expanded to what they mean, or the first unknown one is reported.** -/
theorem expandNames_spec (hm : m.IsValidated) (hd : m.resources.find? resource = some d)
    (names : List Text) (found : NameSet) :
    match d.expandNames (m.expansionsFor resource) resource names found with
    | .ok found' => (∀ n ∈ names, n ∈ d.aliases.keys ∨ n ∈ d.capabilities) ∧
        ∀ c, c ∈ found' ↔ c ∈ found ∨ ∃ n ∈ names, d.Means n c
    | .error f => ∃ known n rest, names = known ++ n :: rest ∧
        (∀ k ∈ known, k ∈ d.aliases.keys ∨ k ∈ d.capabilities) ∧
        n ∉ d.aliases.keys ∧ n ∉ d.capabilities ∧ f = .unknownCapability resource n .null := by
  induction names generalizing found with
  | nil => exact ⟨by simp, by simp⟩
  | cons n rest ih =>
    have hspec := hm.expandName_spec hd n
    unfold Definition.expandNames
    rcases hx : d.expandName (m.expansionsFor resource) resource n with f | more
    · rw [hx] at hspec
      obtain ⟨hf, hkeys, hcap⟩ := hspec
      exact ⟨[], n, rest, rfl, by simp, hkeys, hcap, hf⟩
    · rw [hx] at hspec
      obtain ⟨hn, hmore⟩ := hspec
      have hih := ih (found ∪ more)
      dsimp only
      split at hih
      · next found' =>
        obtain ⟨hall, hmem⟩ := hih
        refine ⟨List.forall_mem_cons.2 ⟨hn, hall⟩, fun c => ?_⟩
        rw [hmem, NameSet.mem_union, hmore]
        simp [or_assoc]
      · next f =>
        obtain ⟨known, n', rest', hsplit, hknown, hbad⟩ := hih
        exact ⟨n :: known, n', rest', by rw [hsplit]; rfl,
          List.forall_mem_cons.2 ⟨hn, hknown⟩, hbad⟩

/-- What a name means is a capability. -/
theorem mem_capabilities_of_means (hm : m.IsValidated) (hd : m.resources.find? resource = some d)
    (h : d.Means name c) : c ∈ d.capabilities := by
  rcases h with ⟨hcap, -, rfl⟩ | ⟨b, -, targets, hb, hc, ⟨hcap, -⟩ | rfl⟩
  · exact hcap
  · exact hcap
  · exact (hm.spec hd).1.own _ _ hb hc

end IsValidated

end ValidModel

end Gatehouse
