import Gatehouse.Model.Asked
import Gatehouse.Proofs.Collections.Outcome
import Gatehouse.Proofs.Model.Closure

/-!
# Growing models

A registry grows if its resources keep their capabilities and aliases, and every alias its targets;
anything may be added (`Registry.Grows`).  A name may then mean something else than before: what was
a plain capability may have become an alias, where it is asked for as well as deep among the targets
of another alias.  Yet it means no less, as an alias must not hide a capability
(`Definition.Grows.means`).  Main statement: in a grown model, requested names are expanded to no
less than before (`ValidModel.IsValidated.expandName_grows`).
-/

namespace Gatehouse

open Relation (ReflTransGen)

/-- **A definition grows:** capabilities and aliases stay, and aliases keep their targets. -/
structure Definition.Grows (d d' : Definition) : Prop where
  /-- The capabilities stay. -/
  capabilities : ∀ c ∈ d.capabilities, c ∈ d'.capabilities
  /-- The aliases stay, each with its targets. -/
  aliases : ∀ a targets, d.aliases.find? a = some targets →
    ∃ targets', d'.aliases.find? a = some targets' ∧ ∀ t ∈ targets, t ∈ targets'

/-- **A registry grows:** resources stay, and their definitions grow. -/
def Registry.Grows (r r' : Registry) : Prop :=
  ∀ resource d, r.find? resource = some d → ∃ d', r'.find? resource = some d' ∧ d.Grows d'

namespace Definition.Grows

variable {d d' : Definition} {a b c name : Text}

/-- Aliases remain aliases in what has grown. -/
theorem mem_keys (h : d.Grows d') (ha : a ∈ d.aliases.keys) : a ∈ d'.aliases.keys := by
  obtain ⟨targets, hfind⟩ := exists_find?_of_mem_keys ha
  obtain ⟨targets', hfind', -⟩ := h.aliases a targets hfind
  exact mem_keys_of_find? hfind'

/-- A known name stays known. -/
theorem known (h : d.Grows d') (hn : name ∈ d.aliases.keys ∨ name ∈ d.capabilities) :
    name ∈ d'.aliases.keys ∨ name ∈ d'.capabilities :=
  hn.imp h.mem_keys (h.capabilities name)

/-- Aliases go on leading where they led. -/
theorem leads (h : d.Grows d') (hab : d.Leads a b) : d'.Leads a b := by
  obtain ⟨targets, hfind, hb, hne, hkeys⟩ := hab
  obtain ⟨targets', hfind', hsub⟩ := h.aliases a targets hfind
  exact ⟨targets', hfind', hsub b hb, hne, h.mem_keys hkeys⟩

/-- What an alias brings, it brings still, or else it leads to an alias of that name, which brings
it. -/
theorem standsFor_of_brings (h : d.Grows d') (hides : d'.HidesNone) (hac : d.Brings a c) :
    d'.StandsFor a c := by
  obtain ⟨targets, hfind, hc, hkind⟩ := hac
  obtain ⟨targets', hfind', hsub⟩ := h.aliases a targets hfind
  rcases hkind with ⟨hcap, -⟩ | rfl
  · have hcap' := h.capabilities c hcap
    by_cases hkeys : c ∈ d'.aliases.keys
    · -- the capability has become an alias, which lists itself
      obtain ⟨own, hown⟩ := exists_find?_of_mem_keys hkeys
      have hbrings : d'.Brings c c := ⟨own, hown, hides c own hown hcap', .inr rfl⟩
      by_cases hca : c = a
      · exact hca ▸ ⟨c, .refl, hbrings⟩
      · exact ⟨c, .single ⟨targets', hfind', hsub c hc, hca, hkeys⟩, hbrings⟩
    · exact ⟨a, .refl, targets', hfind', hsub c hc, .inl ⟨hcap', hkeys⟩⟩
  · exact ⟨c, .refl, targets', hfind', hsub c hc, .inr rfl⟩

/-- Aliases go on standing for what they stood for, unless one hides a capability. -/
theorem standsFor (h : d.Grows d') (hides : d'.HidesNone) (hac : d.StandsFor a c) :
    d'.StandsFor a c := by
  obtain ⟨b, hab, hbc⟩ := hac
  obtain ⟨e, hbe, hec⟩ := h.standsFor_of_brings hides hbc
  exact ⟨e, (ReflTransGen.mono (fun _ _ => h.leads) _ _ hab).trans hbe, hec⟩

/-- **A name means no less than before.** -/
theorem means (h : d.Grows d') (hides : d'.HidesNone) (hmeans : d.Means name c) :
    d'.Means name c := by
  rcases hmeans with ⟨hcap, -, rfl⟩ | hstands
  · exact hides.means_self (h.capabilities c hcap)
  · exact .inr (h.standsFor hides hstands)

end Definition.Grows

namespace ValidModel.IsValidated

variable {m m' : ValidModel} {resource name : Text} {d d' : Definition} {found : NameSet}

section Definitions

variable (hm : m.IsValidated) (hm' : m'.IsValidated) (hd : m.resources.find? resource = some d)
  (hd' : m'.resources.find? resource = some d') (h : d.Grows d')
include hm hm' hd hd' h

/-- **A requested name is expanded to no less than before.** -/
theorem expandName_grows
    (hok : d.expandName (m.expansionsFor resource) resource name = .ok found) :
    ∃ found', d'.expandName (m'.expansionsFor resource) resource name = .ok found' ∧
      ∀ c ∈ found, c ∈ found' := by
  have hspec := hm.expandName_spec hd name
  have hspec' := hm'.expandName_spec hd' name
  rw [hok] at hspec
  obtain ⟨hknown, hfound⟩ := hspec
  rcases hok' : d'.expandName (m'.expansionsFor resource) resource name with f | found' <;>
    rw [hok'] at hspec'
  · exact absurd (h.known hknown) (not_or.2 hspec'.2)
  · refine ⟨found', rfl, fun c hc => (hspec'.2 c).2 ?_⟩
    exact h.means (hm'.spec hd').1.hides ((hfound c).1 hc)

/-- Requested names are expanded to no less than before, whatever was found already. -/
theorem expandNames_grows {names : List Text} {start start' : NameSet}
    (hstart : ∀ c ∈ start, c ∈ start')
    (hok : d.expandNames (m.expansionsFor resource) resource names start = .ok found) :
    ∃ found', d'.expandNames (m'.expansionsFor resource) resource names start' = .ok found' ∧
      ∀ c ∈ found, c ∈ found' := by
  induction names generalizing start start' with
  | nil =>
    obtain rfl := Except.ok.inj hok
    exact ⟨start', rfl, hstart⟩
  | cons name rest ih =>
    unfold Definition.expandNames at hok ⊢
    rcases hname : d.expandName (m.expansionsFor resource) resource name with f | more <;>
      rw [hname] at hok
    · cases hok
    · obtain ⟨more', hmore', hsub⟩ := expandName_grows hm hm' hd hd' h hname
      rw [hmore']
      exact ih (NameSet.mem_union_mono hstart hsub) hok

/-- Requested data is expanded to no less than before, whatever was found already. -/
theorem expandData_grows {requested : List Value} {start start' : NameSet}
    (hstart : ∀ c ∈ start, c ∈ start')
    (hok : d.expandData (m.expansionsFor resource) resource requested start = .ok found) :
    ∃ found', d'.expandData (m'.expansionsFor resource) resource requested start' = .ok found' ∧
      ∀ c ∈ found, c ∈ found' := by
  induction requested generalizing start start' with
  | nil =>
    obtain rfl := Except.ok.inj hok
    exact ⟨start', rfl, hstart⟩
  | cons v rest ih =>
    obtain ⟨more, hmore, hok⟩ := Outcome.bind_eq_ok_iff.1 hok
    obtain ⟨_ | name, hasked, hname⟩ := Outcome.bind_eq_ok_iff.1 hmore
    · cases hname
    obtain ⟨more', hmore', hsub⟩ :=
      expandName_grows hm hm' hd hd' h (Outcome.mapError_eq_ok_iff.1 hname)
    obtain ⟨found', hfound', hall⟩ := ih (NameSet.mem_union_mono hstart hsub) hok
    refine ⟨found', Outcome.bind_eq_ok_iff.2 ⟨more', ?_, hfound'⟩, hall⟩
    exact Outcome.bind_eq_ok_iff.2 ⟨some name, hasked, Outcome.mapError_eq_ok_iff.2 hmore'⟩

end Definitions

end ValidModel.IsValidated

end Gatehouse
