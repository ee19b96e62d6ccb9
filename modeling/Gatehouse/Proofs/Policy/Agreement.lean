import Gatehouse.Proofs.Model.Agreement
import Gatehouse.Proofs.Policy.Compiled

/-!
# What a digest determines

Two policies agree if they have the same name and, one by one, rules with the same resource, the
same filter and the same requested names, repetitions included but in whatever order
(`Policy.Agrees`).  They are alike if all this looks the same in units of UTF-16 (`Policy.Alike`).
Main statements: policies have the same digested text exactly if they are alike
(`Policy.digestText_eq_iff_alike`), which for whole texts means that they agree
(`Policy.digestText_eq_iff`); and policies that agree compile alike, or fail alike, against models
that agree (`Policy.compile_congr`).
-/

namespace Gatehouse

namespace Rule

/-- Two rules grant the same names on the same instances. -/
structure Agrees (r r' : Rule) : Prop where
  /-- They are about the same resource. -/
  resource : r.resource = r'.resource
  /-- They have the same filter. -/
  filter : r.filter = r'.filter
  /-- They request the same names. -/
  capabilities : sortNames r.capabilities = sortNames r'.capabilities

/-- A rule agrees with itself. -/
theorem Agrees.refl (r : Rule) : r.Agrees r := ⟨rfl, rfl, rfl⟩

/-- Two rules look the same in units of UTF-16. -/
structure Alike (r r' : Rule) : Prop where
  /-- They are about resources with the same units. -/
  resource : r.resource.split = r'.resource.split
  /-- They have filters with the same units. -/
  filter : r.filter.split = r'.filter.split
  /-- They request names with the same units. -/
  capabilities : (sortNames r.capabilities).map Text.split =
    (sortNames r'.capabilities).map Text.split

/-- The texts of a rule are whole. -/
structure IsWhole (r : Rule) : Prop where
  /-- The resource is whole. -/
  resource : r.resource.IsWhole
  /-- The filter is whole. -/
  filter : r.filter.IsWhole
  /-- The requested names are whole. -/
  capabilities : ∀ c ∈ r.capabilities, c.IsWhole

instance (r : Rule) : Decidable r.IsWhole :=
  decidable_of_iff (r.resource.IsWhole ∧ r.filter.IsWhole ∧ ∀ c ∈ r.capabilities, c.IsWhole)
    ⟨fun h => ⟨h.1, h.2.1, h.2.2⟩, fun h => ⟨h.resource, h.filter, h.capabilities⟩⟩

variable {m m' : ValidModel} {r r' : Rule} {rules rules' : List Rule}

/-- Agreement of rules is mutual. -/
theorem Agrees.symm (h : r.Agrees r') : r'.Agrees r :=
  ⟨h.resource.symm, h.filter.symm, h.capabilities.symm⟩

/-- Rules that agree are alike. -/
theorem Agrees.alike (h : r.Agrees r') : r.Alike r' :=
  ⟨by rw [h.resource], by rw [h.filter], by rw [h.capabilities]⟩

/-- Rules of whole texts that are alike agree. -/
theorem Alike.agrees (h : r.Alike r') (hr : r.IsWhole) (hr' : r'.IsWhole) : r.Agrees r' :=
  ⟨Text.eq_of_split_eq hr.resource hr'.resource h.resource,
    Text.eq_of_split_eq hr.filter hr'.filter h.filter,
    Text.eq_of_map_split_eq (fun c hc => hr.capabilities c (mem_sortNames.1 hc))
      (fun c hc => hr'.capabilities c (mem_sortNames.1 hc)) h.capabilities⟩

/-- Whole rules that are written alike agree, one by one. -/
theorem forall₂_agrees (h : List.Forall₂ Alike rules rules') (hrules : ∀ r ∈ rules, r.IsWhole)
    (hrules' : ∀ r ∈ rules', r.IsWhole) : List.Forall₂ Agrees rules rules' := by
  induction h with
  | nil => exact .nil
  | cons hr _ ih =>
    rw [List.forall_mem_cons] at hrules hrules'
    exact .cons (hr.agrees hrules.1 hrules'.1) (ih hrules.2 hrules'.2)

/-- Rules that agree compile alike against models that agree. -/
theorem compile_congr (hm : m.IsValidated) (hm' : m'.IsValidated)
    (hmodels : m.resources.Agrees m'.resources) (h : r.Agrees r') (policy : Text) :
    r.compile m policy = r'.compile m' policy := by
  unfold compile
  rw [← h.resource, ← h.filter, ← h.capabilities]
  have hd := hmodels r.resource
  generalize hfind : m.resources.find? r.resource = o, hfind' : m'.resources.find? r.resource = o'
    at hd
  cases hd with
  | none => rfl
  | @some d d' hd =>
    have hnames := hm.expandNames_congr hm' hfind hfind' hd (sortNames r.capabilities) ∅
    simp only [ValidModel.expansionsFor] at hnames
    simp only [hnames]

/-- Rules that agree compile alike, for models that agree. -/
theorem compileEach_congr (hm : m.IsValidated) (hm' : m'.IsValidated)
    (hmodels : m.resources.Agrees m'.resources) (h : List.Forall₂ Agrees rules rules')
    (policy : Text) : compileEach m policy rules = compileEach m' policy rules' := by
  induction h with
  | nil => rfl
  | cons hr _ ih =>
    simp only [compileEach, compile_congr hm hm' hmodels hr, ih, hr.resource]

end Rule

namespace Policy

/-- Two policies have the same content. -/
structure Agrees (p p' : Policy) : Prop where
  /-- They have the same name. -/
  name : p.name = p'.name
  /-- Their rules agree one by one. -/
  rules : List.Forall₂ Rule.Agrees p.rules p'.rules

/-- Two policies look the same in units of UTF-16. -/
structure Alike (p p' : Policy) : Prop where
  /-- Their names have the same units. -/
  name : p.name.split = p'.name.split
  /-- Their rules are alike one by one. -/
  rules : List.Forall₂ Rule.Alike p.rules p'.rules

/-- **The texts of a policy are whole.** -/
structure IsWhole (p : Policy) : Prop where
  /-- The name is whole. -/
  name : p.name.IsWhole
  /-- The texts of the rules are whole. -/
  rules : ∀ r ∈ p.rules, r.IsWhole

instance (p : Policy) : Decidable p.IsWhole :=
  decidable_of_iff (p.name.IsWhole ∧ ∀ r ∈ p.rules, r.IsWhole)
    ⟨fun h => ⟨h.1, h.2⟩, fun h => ⟨h.name, h.rules⟩⟩

variable {m m' : ValidModel} {p p' : Policy}

/-- Policies with the same name and rules agree, whatever their versions. -/
theorem agrees_of_eq (hname : p.name = p'.name) (hrules : p.rules = p'.rules) : p.Agrees p' :=
  ⟨hname, hrules ▸ List.forall₂_same.2 fun r _ => Rule.Agrees.refl r⟩

/-- Agreement of policies is mutual. -/
theorem Agrees.symm (h : p.Agrees p') : p'.Agrees p :=
  ⟨h.name.symm, h.rules.flip.imp fun _ _ hr => hr.symm⟩

/-- **Policies that agree compile alike,** or fail alike, against validated models that agree and
have the same fingerprint. -/
theorem compile_congr (hm : m.IsValidated) (hm' : m'.IsValidated)
    (hmodels : m.resources.Agrees m'.resources) (hfingerprint : m.fingerprint = m'.fingerprint)
    (h : p.Agrees p') : p.compile m = p'.compile m' := by
  simp only [compile, Rule.compileEach_congr hm hm' hmodels h.rules, h.name, hfingerprint]

/-- The document of one rule in a policy. -/
def ruleDocument (r : Rule) : Text.Document :=
  .array [.text r.resource, .text r.filter, Text.Document.texts (sortNames r.capabilities)]

/-- The document of a policy is that of its name and its rules. -/
theorem document_eq (p : Policy) :
    p.document = .array [.text p.name, .array (p.rules.map ruleDocument)] := rfl

/-- The document of a policy holds no words. -/
theorem isWordless_document (p : Policy) : p.document.IsWordless := by
  refine ⟨trivial, ?_, trivial⟩
  simp only [Text.Document.IsWordless, Text.Document.areWordless_iff, List.mem_map]
  rintro _ ⟨r, -, rfl⟩
  exact ⟨trivial, trivial, Text.Document.isWordless_texts _, trivial⟩

/-- A rule's document shows the units of its texts. -/
theorem split_ruleDocument_eq_iff {r r' : Rule} :
    (ruleDocument r).split = (ruleDocument r').split ↔ r.Alike r' := by
  simp only [ruleDocument, Text.Document.split, Text.Document.splitItems, Text.Document.split_texts,
    Text.Document.array.injEq, List.cons.injEq, Text.Document.text.injEq, and_true,
    Text.Document.texts_injective.eq_iff]
  exact ⟨fun h => ⟨h.1, h.2.1, h.2.2⟩, fun h => ⟨h.resource, h.filter, h.capabilities⟩⟩

/-- **Policies have the same digested text exactly if they are alike in units of UTF-16.** -/
theorem digestText_eq_iff_alike : p.digestText = p'.digestText ↔ p.Alike p' := by
  have hrules : (p.rules.map ruleDocument).map Text.Document.split =
      (p'.rules.map ruleDocument).map Text.Document.split ↔
        List.Forall₂ Rule.Alike p.rules p'.rules := by
    rw [List.map_map, List.map_map, ← List.forall₂_eq_eq_eq, List.forall₂_map_left_iff,
      List.forall₂_map_right_iff]
    simp only [Function.comp_apply, split_ruleDocument_eq_iff]
  rw [digestText, digestText,
    Text.Document.render_eq_iff p.isWordless_document p'.isWordless_document]
  simp only [document_eq, Text.Document.split, Text.Document.splitItems,
    Text.Document.splitItems_eq_map, Text.Document.array.injEq, List.cons.injEq,
    Text.Document.text.injEq, and_true, hrules]
  exact ⟨fun h => ⟨h.1, h.2⟩, fun h => ⟨h.name, h.rules⟩⟩

/-- Policies that agree are alike. -/
theorem Agrees.alike (h : p.Agrees p') : p.Alike p' :=
  ⟨by rw [h.name], h.rules.imp fun _ _ hr => hr.alike⟩

/-- **Policies of whole texts that are alike agree.** -/
theorem Alike.agrees (h : p.Alike p') (hp : p.IsWhole) (hp' : p'.IsWhole) : p.Agrees p' :=
  ⟨Text.eq_of_split_eq hp.name hp'.name h.name,
    Rule.forall₂_agrees h.rules hp.rules hp'.rules⟩

/-- **Policies of whole texts have the same digested text exactly if they agree.** -/
theorem digestText_eq_iff (hp : p.IsWhole) (hp' : p'.IsWhole) :
    p.digestText = p'.digestText ↔ p.Agrees p' := by
  rw [digestText_eq_iff_alike]
  exact ⟨fun h => h.agrees hp hp', fun h => h.alike⟩

end Policy

end Gatehouse
