import Gatehouse.Model.Definition
import Mathlib.Logic.Relation

/-!
# The graph of aliases

The aliases of a definition form a graph: an alias leads to every other alias among its targets
(`Definition.Leads`).  It brings the capabilities among its targets that are no aliases, and the
capability of its own name where it lists itself (`Definition.Brings`).  What an alias stands for is
what the aliases that it reaches bring (`Definition.StandsFor`).

A definition is sound if its aliases neither hide a capability nor mention a name that is not there
nor lead in a circle (`Definition.Sound`).  The same is said alias by alias in
`Definition.Expandable`, which is what a search can establish step by step.  Main statement: a
definition that hides no capability is sound exactly if each of its aliases is expandable
(`Definition.sound_iff`).
-/

namespace Gatehouse

open Relation (ReflTransGen TransGen)

namespace Definition

/-- Alias `a` has another alias `b` among its targets. -/
def Leads (d : Definition) (a b : Text) : Prop :=
  ∃ targets, d.aliases.find? a = some targets ∧ b ∈ targets ∧ b ≠ a ∧ b ∈ d.aliases.keys

/-- Alias `a` has `c` by itself: a target that is a capability and no alias, or its own name where
it lists itself. -/
def Brings (d : Definition) (a c : Text) : Prop :=
  ∃ targets, d.aliases.find? a = some targets ∧ c ∈ targets ∧
    (c ∈ d.capabilities ∧ c ∉ d.aliases.keys ∨ c = a)

/-- **What an alias stands for:** what it brings, and what the aliases that it reaches bring. -/
def StandsFor (d : Definition) (a c : Text) : Prop :=
  ∃ b, ReflTransGen d.Leads a b ∧ d.Brings b c

/-- No alias hides a capability: one that has the name of a capability lists itself. -/
def HidesNone (d : Definition) : Prop :=
  ∀ a targets, d.aliases.find? a = some targets → a ∈ d.capabilities → a ∈ targets

/-- The aliases of a definition can be expanded. -/
structure Sound (d : Definition) : Prop where
  /-- An alias of the name of a capability lists itself. -/
  hides : d.HidesNone
  /-- An alias that lists itself has the name of a capability. -/
  own : ∀ a targets, d.aliases.find? a = some targets → a ∈ targets → a ∈ d.capabilities
  /-- Every target is an alias or a capability. -/
  known : ∀ a targets, d.aliases.find? a = some targets →
    ∀ t ∈ targets, t ∈ d.aliases.keys ∨ t ∈ d.capabilities
  /-- Aliases do not lead in a circle. -/
  acyclic : ∀ a, ¬ TransGen d.Leads a a

/-- An alias that mentions no name in vain and leads to aliases of this kind only. -/
inductive Expandable (d : Definition) : Text → Prop where
  /-- Everything that the alias mentions is fit for expansion. -/
  | intro {a : Text} {targets : List Text} (find : d.aliases.find? a = some targets)
      (own : a ∈ targets → a ∈ d.capabilities)
      (known : ∀ t ∈ targets, t ∈ d.aliases.keys ∨ t ∈ d.capabilities)
      (next : ∀ b, d.Leads a b → Expandable d b) : Expandable d a

variable {d : Definition} {a b c : Text} {targets : List Text}

/-- What has targets is an alias. -/
theorem mem_keys_of_find? (h : d.aliases.find? a = some targets) : a ∈ d.aliases.keys :=
  OrderedMap.isSome_find?_iff.1 (by rw [h]; rfl)

/-- An alias has targets. -/
theorem exists_find?_of_mem_keys (h : a ∈ d.aliases.keys) :
    ∃ targets, d.aliases.find? a = some targets :=
  Option.isSome_iff_exists.1 (OrderedMap.isSome_find?_iff.2 h)

/-- An alias leads to the other aliases among its targets. -/
theorem leads_iff (h : d.aliases.find? a = some targets) :
    d.Leads a b ↔ b ∈ targets ∧ b ≠ a ∧ b ∈ d.aliases.keys := by
  simp [Leads, h]

/-- An alias brings the capabilities among its targets that are no aliases, and itself if it lists
itself. -/
theorem brings_iff (h : d.aliases.find? a = some targets) :
    d.Brings a c ↔ c ∈ targets ∧ (c ∈ d.capabilities ∧ c ∉ d.aliases.keys ∨ c = a) := by
  simp [Brings, h]

/-- An alias stands for what it brings and for what the aliases among its targets stand for. -/
theorem standsFor_iff : d.StandsFor a c ↔ d.Brings a c ∨ ∃ b, d.Leads a b ∧ d.StandsFor b c := by
  constructor
  · rintro ⟨b, hab, hbc⟩
    rcases hab.cases_head with rfl | ⟨e, hae, heb⟩
    · exact .inl hbc
    · exact .inr ⟨e, hae, b, heb, hbc⟩
  · rintro (h | ⟨b, hab, e, hbe, hec⟩)
    · exact ⟨a, .refl, h⟩
    · exact ⟨e, .head hab hbe, hec⟩

/-! ### Expandable aliases -/

namespace Expandable

/-- An alias that can be expanded has targets. -/
theorem exists_find? (h : d.Expandable a) : ∃ targets, d.aliases.find? a = some targets := by
  obtain ⟨find, _, _, _⟩ := h
  exact ⟨_, find⟩

/-- What can be expanded is an alias. -/
theorem mem_keys (h : d.Expandable a) : a ∈ d.aliases.keys :=
  mem_keys_of_find? h.exists_find?.choose_spec

/-- An alias that can be expanded lists itself only if it is a capability too. -/
theorem own_mem (h : d.Expandable a) (ha : d.aliases.find? a = some targets) (hmem : a ∈ targets) :
    a ∈ d.capabilities := by
  obtain ⟨find, own, _, _⟩ := h
  obtain rfl := Option.some.inj (ha.symm.trans find)
  exact own hmem

/-- The targets of an alias that can be expanded are known. -/
theorem target_known (h : d.Expandable a) (ha : d.aliases.find? a = some targets) {t : Text}
    (ht : t ∈ targets) : t ∈ d.aliases.keys ∨ t ∈ d.capabilities := by
  obtain ⟨find, _, known, _⟩ := h
  obtain rfl := Option.some.inj (ha.symm.trans find)
  exact known t ht

/-- Whatever it leads to can be expanded too. -/
theorem of_leads (h : d.Expandable a) (hab : d.Leads a b) : d.Expandable b := by
  obtain ⟨_, _, _, next⟩ := h
  exact next b hab

/-- No expandable alias leads back to itself. -/
theorem not_transGen (h : d.Expandable a) : ¬ TransGen d.Leads a a := by
  induction h with
  | @intro a _ _ _ _ _ ih =>
    intro hcircle
    obtain ⟨b, hab, hba⟩ := TransGen.head'_iff.1 hcircle
    exact ih b hab (TransGen.trans_right hba (.single hab))

end Expandable

/-- The other aliases that can be reached from an alias, on a path that `visited` holds so far, are
fewer and fewer; so without circles a search from any alias ends. -/
theorem acc_of_acyclic (hacyclic : ∀ a, ¬ TransGen d.Leads a a) (a : Text) :
    Acc (fun b a => d.Leads a b) a := by
  -- the aliases that can still be reached grow fewer with every step
  classical
  let reach := fun a => d.aliases.keys.filter fun b => decide (TransGen d.Leads a b)
  have hlt : ∀ a b, d.Leads a b → (reach b).length < (reach a).length := by
    intro a b hab
    have hsub : reach b = (reach a).filter fun c => decide (TransGen d.Leads b c) := by
      simp only [reach, List.filter_filter]
      refine List.filter_congr fun c _ => ?_
      by_cases hbc : TransGen d.Leads b c
      · simp [hbc, TransGen.head hab hbc]
      · simp [hbc]
    have hb : b ∈ d.aliases.keys := by
      obtain ⟨_, _, _, _, hb⟩ := hab
      exact hb
    rw [hsub]
    refine List.length_filter_lt_length_iff_exists.2 ⟨b, ?_, ?_⟩
    · simpa [reach] using ⟨hb, TransGen.single hab⟩
    · simpa using hacyclic b
  have hwf : WellFounded fun b a => (reach b).length < (reach a).length :=
    (measure fun a => (reach a).length).wf
  exact Subrelation.accessible (fun {b a} hab => hlt a b hab) (hwf.apply a)

/-- **A definition that hides no capability is sound exactly if each alias is expandable.** -/
theorem sound_iff :
    d.Sound ↔ d.HidesNone ∧ ∀ a ∈ d.aliases.keys, d.Expandable a := by
  constructor
  · intro h
    refine ⟨h.hides, fun a => ?_⟩
    induction acc_of_acyclic h.acyclic a with
    | intro a _ ih =>
      intro ha
      obtain ⟨targets, hfind⟩ := exists_find?_of_mem_keys ha
      refine .intro hfind (h.own a targets hfind) (h.known a targets hfind) fun b hab => ?_
      exact ih b hab ((leads_iff hfind).1 hab).2.2
  · rintro ⟨hides, hall⟩
    refine ⟨hides, fun a targets ha => ?_, fun a targets ha t ht => ?_, fun a hcircle => ?_⟩
    · exact (hall a (mem_keys_of_find? ha)).own_mem ha
    · exact (hall a (mem_keys_of_find? ha)).target_known ha ht
    · obtain ⟨b, ⟨targets, ha, _⟩, _⟩ := TransGen.head'_iff.1 hcircle
      exact (hall a (mem_keys_of_find? ha)).not_transGen hcircle

end Definition

end Gatehouse
