import Gatehouse.Proofs.Model.Validated
import Gatehouse.Proofs.Text.Canonical

/-!
# What a fingerprint determines

Two definitions agree if they have the same capabilities and the same targets for each alias, in
whatever order they were defined (`Definition.Agrees`).  Two registries agree if they have
definitions for the same resources, which agree (`Registry.Agrees`).  Main statements: registries of
whole names with the same text of definitions agree (`Registry.agrees_of_definitionText`), and
validated models whose registries agree carry the same expansions
(`ValidModel.IsValidated.expansionsFor_congr`).
-/

namespace Gatehouse

namespace NameMap

variable {α β : Type}

/-- Lists of different names whose sorted forms show the same show the same at each name. -/
theorem map_lookup_eq {f : α → β} {l l' : List (Text × α)} (hl : (l.map Prod.fst).Nodup)
    (hl' : (l'.map Prod.fst).Nodup)
    (h : ((ofList l).entries.map fun e => (e.1, f e.2)) =
      (ofList l').entries.map fun e => (e.1, f e.2)) (name : Text) :
    (l.lookup name).map f = (l'.lookup name).map f := by
  have hmaps : (ofList l).mapValues f = (ofList l').mapValues f := by
    unfold mapValues
    congr
  have hfind := congrArg (fun m => m.find? name) hmaps
  simpa only [find?_mapValues, find?_ofList hl, find?_ofList hl'] using hfind

/-- The sorted form of a list of different names has the entries of the list. -/
theorem mem_of_mem_ofList {l : List (Text × α)} (hl : (l.map Prod.fst).Nodup) {e : Text × α}
    (he : e ∈ (ofList l).entries) : e ∈ l := by
  have hlookup : (⟨l, hl⟩ : OrderedMap Text α).find? e.1 = some e.2 :=
    (find?_ofList hl e.1).symm.trans (find?_eq_some_iff.2 he)
  exact OrderedMap.mem_of_find?_eq_some hlookup

end NameMap

namespace Definition

/-- Two definitions agree on their capabilities and on the targets of each alias. -/
structure Agrees (d d' : Definition) : Prop where
  /-- They have the same capabilities. -/
  capabilities : sortNames d.capabilities = sortNames d'.capabilities
  /-- They have the same aliases with the same targets. -/
  aliases : ∀ name, d.aliases.find? name = d'.aliases.find? name

namespace Agrees

variable {d d' : Definition}

/-- Definitions that agree declare the same capabilities. -/
theorem mem_capabilities_iff (h : d.Agrees d') (c : Text) :
    c ∈ d.capabilities ↔ c ∈ d'.capabilities := by
  rw [← mem_sortNames, h.capabilities, mem_sortNames]

/-- Definitions that agree have the same aliases. -/
theorem mem_keys_iff (h : d.Agrees d') (name : Text) :
    name ∈ d.aliases.keys ↔ name ∈ d'.aliases.keys := by
  rw [← OrderedMap.isSome_find?_iff, h.aliases, OrderedMap.isSome_find?_iff]

/-- Aliases stand for the same in definitions that agree. -/
theorem standsFor_eq (h : d.Agrees d') : d.StandsFor = d'.StandsFor := by
  have hleads : d.Leads = d'.Leads := by
    funext a b
    simp only [Leads, h.aliases, h.mem_keys_iff]
  have hbrings : d.Brings = d'.Brings := by
    funext a c
    simp only [Brings, h.aliases, h.mem_keys_iff, h.mem_capabilities_iff]
  funext a c
  simp only [StandsFor, hleads, hbrings]

end Agrees

end Definition

/-- **The names in a definition are whole.** -/
structure Definition.IsWhole (d : Definition) : Prop where
  /-- The capabilities are whole. -/
  capabilities : ∀ c ∈ d.capabilities, c.IsWhole
  /-- The aliases and their targets are whole. -/
  aliases : ∀ a ∈ d.aliases.entries, a.1.IsWhole ∧ ∀ target ∈ a.2, target.IsWhole

instance (d : Definition) : Decidable d.IsWhole :=
  decidable_of_iff ((∀ c ∈ d.capabilities, c.IsWhole) ∧
      ∀ a ∈ d.aliases.entries, a.1.IsWhole ∧ ∀ target ∈ a.2, target.IsWhole)
    ⟨fun h => ⟨h.1, h.2⟩, fun h => ⟨h.capabilities, h.aliases⟩⟩

namespace Registry

/-- **The names in a registry are whole.** -/
def IsWhole (r : Registry) : Prop := ∀ e ∈ r.entries, e.1.IsWhole ∧ e.2.IsWhole

instance (r : Registry) : Decidable r.IsWhole :=
  inferInstanceAs (Decidable (∀ e ∈ r.entries, e.1.IsWhole ∧ e.2.IsWhole))

/-- Two registries have definitions for the same resources, and these agree. -/
def Agrees (r r' : Registry) : Prop :=
  ∀ resource, Option.Rel Definition.Agrees (r.find? resource) (r'.find? resource)

/-- A registry agrees with itself. -/
theorem Agrees.refl (r : Registry) : r.Agrees r := by
  intro resource
  cases r.find? resource with
  | none => exact .none
  | some d => exact .some ⟨rfl, fun _ => rfl⟩

/-- The document of one definition in a registry. -/
def definitionDocument (d : Definition) : Text.Document :=
  .object
    [("aliases", .object ((NameMap.ofList d.aliases.entries).entries.map fun a =>
        (a.1, Text.Document.texts a.2))),
     ("capabilities", Text.Document.texts (sortNames d.capabilities))]

/-- The document of a registry is that of its definitions by name. -/
theorem document_eq (r : Registry) :
    r.document = .object ((NameMap.ofList r.entries).entries.map fun e =>
      (e.1, definitionDocument e.2)) := rfl

/-- The document of a registry holds no words. -/
theorem isWordless_document (r : Registry) : r.document.IsWordless := by
  have hdefinition : ∀ d, (definitionDocument d).IsWordless := by
    intro d
    refine ⟨?_, Text.Document.isWordless_texts _, trivial⟩
    simp only [Text.Document.IsWordless, Text.Document.haveWordless_iff, List.mem_map]
    rintro _ ⟨a, -, rfl⟩
    exact Text.Document.isWordless_texts a.2
  rw [document_eq]
  simp only [Text.Document.IsWordless, Text.Document.haveWordless_iff, List.mem_map]
  rintro _ ⟨e, -, rfl⟩
  exact hdefinition e.2

/-- The document of a definition with whole names is whole. -/
theorem isWhole_definitionDocument {d : Definition} (h : d.IsWhole) :
    (definitionDocument d).IsWhole := by
  refine ⟨by decide, ?_, by decide, ?_, trivial⟩
  · simp only [Text.Document.IsWhole, Text.Document.haveWhole_iff, List.mem_map]
    rintro _ ⟨a, ha, rfl⟩
    obtain ⟨hname, htargets⟩ :=
      h.aliases a (NameMap.mem_of_mem_ofList d.aliases.keys_nodup ha)
    exact ⟨hname, Text.Document.isWhole_texts htargets⟩
  · exact Text.Document.isWhole_texts fun c hc => h.capabilities c (mem_sortNames.1 hc)

/-- The document of a registry with whole names is whole. -/
theorem isWhole_document {r : Registry} (h : r.IsWhole) : r.document.IsWhole := by
  rw [document_eq]
  simp only [Text.Document.IsWhole, Text.Document.haveWhole_iff, List.mem_map]
  rintro _ ⟨e, he, rfl⟩
  obtain ⟨hname, hd⟩ := h e (NameMap.mem_of_mem_ofList r.keys_nodup he)
  exact ⟨hname, isWhole_definitionDocument hd⟩

/-- Definitions with the same document agree. -/
theorem agrees_of_definitionDocument {d d' : Definition}
    (h : definitionDocument d = definitionDocument d') : d.Agrees d' := by
  simp only [definitionDocument, Text.Document.object.injEq, List.cons.injEq, Prod.mk.injEq,
    true_and, and_true] at h
  refine ⟨Text.Document.texts_injective h.2, fun name => ?_⟩
  have hlookup := NameMap.map_lookup_eq d.aliases.keys_nodup d'.aliases.keys_nodup h.1 name
  exact Option.map_injective Text.Document.texts_injective hlookup

/-- **Registries of whole names with the same text of definitions agree.** -/
theorem agrees_of_definitionText {r r' : Registry} (hr : r.IsWhole) (hr' : r'.IsWhole)
    (h : r.definitionText = r'.definitionText) : r.Agrees r' := by
  have hdoc := Text.Document.eq_of_render_eq r.isWordless_document r'.isWordless_document
    (isWhole_document hr) (isWhole_document hr') h
  rw [document_eq, document_eq, Text.Document.object.injEq] at hdoc
  intro resource
  have hlookup := NameMap.map_lookup_eq r.keys_nodup r'.keys_nodup hdoc resource
  change (r.find? resource).map definitionDocument = (r'.find? resource).map definitionDocument
    at hlookup
  rcases hd : r.find? resource with _ | d <;> rcases hd' : r'.find? resource with _ | d' <;>
    rw [hd, hd'] at hlookup
  · exact .none
  · cases hlookup
  · cases hlookup
  · exact .some (agrees_of_definitionDocument (Option.some.inj hlookup))

end Registry

namespace ValidModel.IsValidated

variable {m m' : ValidModel} {resource : Text} {d d' : Definition}

/-- **Validated models carry the same expansions of definitions that agree.** -/
theorem expansionsFor_congr (hm : m.IsValidated) (hm' : m'.IsValidated)
    (hd : m.resources.find? resource = some d) (hd' : m'.resources.find? resource = some d')
    (h : d.Agrees d') : m.expansionsFor resource = m'.expansionsFor resource := by
  refine NameMap.ext_find? fun name => ?_
  have hmem : name ∈ m.expansionsFor resource ↔ name ∈ m'.expansionsFor resource := by
    rw [hm.mem_expansionsFor hd, h.mem_keys_iff, hm'.mem_expansionsFor hd']
  rcases hfind : (m.expansionsFor resource).find? name with _ | found
  · rw [← NameMap.not_mem_iff, hmem, NameMap.not_mem_iff] at hfind
    exact hfind.symm
  · obtain ⟨found', hfind'⟩ :=
      NameMap.mem_iff_exists.1 (hmem.1 (NameMap.mem_iff_exists.2 ⟨found, hfind⟩))
    have hstands := ((hm.spec hd).2.1 name found hfind).2
    have hstands' := ((hm'.spec hd').2.1 name found' hfind').2
    have hsame : found = found' :=
      NameSet.ext fun c => by rw [hstands, hstands', h.standsFor_eq]
    rw [hfind', hsame]

/-- Requested names are expanded alike by validated models whose definitions agree. -/
theorem expandNames_congr (hm : m.IsValidated) (hm' : m'.IsValidated)
    (hd : m.resources.find? resource = some d) (hd' : m'.resources.find? resource = some d')
    (h : d.Agrees d') (names : List Text) (found : NameSet) :
    d.expandNames (m.expansionsFor resource) resource names found =
      d'.expandNames (m'.expansionsFor resource) resource names found := by
  have hname : ∀ name, d.expandName (m.expansionsFor resource) resource name =
      d'.expandName (m'.expansionsFor resource) resource name := by
    intro name
    simp only [Definition.expandName, hm.expansionsFor_congr hm' hd hd' h, h.mem_capabilities_iff]
  induction names generalizing found with
  | nil => rfl
  | cons name rest ih => simp only [Definition.expandNames, hname, ih]

end ValidModel.IsValidated

end Gatehouse
