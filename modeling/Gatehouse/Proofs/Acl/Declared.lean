import Gatehouse.Acl.Any
import Gatehouse.Proofs.Acl.Merged
import Gatehouse.Proofs.Collections.Combining
import Gatehouse.Proofs.Collections.Outcome
import Gatehouse.Proofs.Collections.Related
import Gatehouse.Proofs.Model.Agreement
import Gatehouse.Proofs.Policy.Compiled
import Gatehouse.Proofs.Policy.Names

/-!
# Grants stay within a model

What is compiled against a model, and what is merged from it, speaks of resources that the model
defines and grants capabilities that it declares for them (`Registry.Declares`).  Main statements: a
policy compiles to something for the model (`OfferedPolicy.isFor_of_compile`), compiled policies for
one model are merged to a list for it and are never refused as policies of different models
(`AnyAcl.merge_spec`), and models that agree cannot be told apart (`AnyAcl.IsFor.congr`).
-/

namespace Gatehouse

/-- A registry defines a resource and declares these capabilities for it, all of them texts. -/
def Registry.Declares (r : Registry) (resource : Text) (granted : Value → Prop) : Prop :=
  ∃ d, r.find? resource = some d ∧ ∀ v, granted v → ∃ c ∈ d.capabilities, v = .text c

namespace Registry

variable {r r' : Registry} {resource : Text} {S T : Value → Prop}

/-- Whatever holds less is declared too. -/
theorem Declares.mono (h : r.Declares resource S) (hsub : ∀ v, T v → S v) : r.Declares resource T :=
  h.imp fun _ hd => ⟨hd.1, fun v hv => hd.2 v (hsub v hv)⟩

/-- What is declared may be held together. -/
theorem Declares.or (h : r.Declares resource S) (h' : r.Declares resource T) :
    r.Declares resource fun v => S v ∨ T v := by
  obtain ⟨d, hd, hS⟩ := h
  obtain ⟨d', hd', hT⟩ := h'
  obtain rfl := Option.some.inj (hd.symm.trans hd')
  exact ⟨d, hd, fun v hv => hv.elim (hS v) (hT v)⟩

/-- Registries that agree declare the same. -/
theorem Agrees.declares (h : r.Agrees r') (hr : r.Declares resource S) :
    r'.Declares resource S := by
  obtain ⟨d, hd, hS⟩ := hr
  have hrel := h resource
  rw [hd] at hrel
  rcases hd' : r'.find? resource with _ | d' <;> rw [hd'] at hrel <;> cases hrel
  next hagree =>
  refine ⟨d', hd', fun v hv => ?_⟩
  obtain ⟨c, hc, rfl⟩ := hS v hv
  exact ⟨c, (hagree.mem_capabilities_iff c).1 hc, rfl⟩

end Registry

/-! ### What is granted -/

/-- A compiled rule grants its capabilities. -/
def LooseCompiledRule.Grants (r : LooseCompiledRule) (v : Value) : Prop :=
  ∃ c ∈ r.capabilities, v = .text c

/-- What is granted on a resource, on whatever instance. -/
def LooseGrants.Holds (g : LooseGrants) (v : Value) : Prop :=
  v ∈ g.everywhere ∨ ∃ e ∈ g.exact, v ∈ e.2

/-- **A compiled policy for a model:** it has the model's fingerprint, and its rules stay within the
model. -/
structure AnyCompiled.IsFor (m : ValidModel) (c : AnyCompiled) : Prop where
  /-- The fingerprint. -/
  model : c.modelFingerprint = .text m.fingerprint
  /-- The rules of each resource. -/
  rules : c.rules.All fun resource rules =>
    m.resources.Declares resource fun v => ∃ r ∈ rules, r.Grants v

/-- **A list for a model:** it has the model's fingerprint, or none if it is made of no policies, and
its grants stay within the model. -/
structure AnyAcl.IsFor (m : ValidModel) (a : AnyAcl) : Prop where
  /-- The fingerprint. -/
  model : a.loosen.modelFingerprint =
    if a.loosen.policies = [] then .null else .text m.fingerprint
  /-- The grants on each resource. -/
  grants : a.loosen.grants.All fun resource g => m.resources.Declares resource g.Holds

/-- A compiled policy for a model is one for every model that cannot be told apart from it. -/
theorem AnyCompiled.IsFor.congr {m m' : ValidModel} {c : AnyCompiled} (h : c.IsFor m)
    (hfingerprint : m.fingerprint = m'.fingerprint) (hagree : m.resources.Agrees m'.resources) :
    c.IsFor m' :=
  ⟨hfingerprint ▸ h.model, fun resource rules hfind => hagree.declares (h.rules resource rules hfind)⟩

/-- A list for a model is one for every model that cannot be told apart from it. -/
theorem AnyAcl.IsFor.congr {m m' : ValidModel} {a : AnyAcl} (h : a.IsFor m)
    (hfingerprint : m.fingerprint = m'.fingerprint) (hagree : m.resources.Agrees m'.resources) :
    a.IsFor m' :=
  ⟨hfingerprint ▸ h.model, fun resource g hfind => hagree.declares (h.grants resource g hfind)⟩

/-! ### Compiling -/

variable {m : ValidModel}

/-- A rule that is compiled is about a resource that is defined. -/
theorem Rule.declares_of_compile (hm : m.IsValidated) {r : Rule} {policy : Text}
    {c : CompiledRule} (h : r.compile m policy = .ok c) :
    m.resources.Declares r.resource c.loosen.Grants := by
  obtain ⟨-, hcaps⟩ := r.compile_spec hm h
  unfold compile at h
  rcases hd : m.resources.find? r.resource with _ | d
  · rw [hd] at h
    cases h
  · refine ⟨d, hd, ?_⟩
    rintro v ⟨cap, hcap, rfl⟩
    obtain ⟨d', hd', hmem, -⟩ := (hcaps cap).1 hcap
    obtain rfl := Option.some.inj (hd.symm.trans hd')
    exact ⟨cap, hmem, rfl⟩

/-- What data is expanded to is declared. -/
theorem Definition.mem_capabilities_of_expandDatum (hm : m.IsValidated) {resource : Text}
    {d : Definition} (hd : m.resources.find? resource = some d) {v : Value} {found : NameSet}
    (h : d.expandDatum (m.expansionsFor resource) resource v = .ok found) :
    ∀ c ∈ found, c ∈ d.capabilities := by
  obtain ⟨_ | name, -, h⟩ := Outcome.bind_eq_ok_iff.1 h
  · cases h
  · have hspec := hm.expandName_spec hd name
    rw [Outcome.mapError_eq_ok_iff.1 h] at hspec
    exact fun c hc => hm.mem_capabilities_of_means hd ((hspec.2 c).1 hc)

/-- What several pieces of data are expanded to is declared. -/
theorem Definition.mem_capabilities_of_expandData (hm : m.IsValidated) {resource : Text}
    {d : Definition} (hd : m.resources.find? resource = some d) {requested : List Value}
    {found found' : NameSet} (hfound : ∀ c ∈ found, c ∈ d.capabilities)
    (h : d.expandData (m.expansionsFor resource) resource requested found = .ok found') :
    ∀ c ∈ found', c ∈ d.capabilities := by
  induction requested generalizing found with
  | nil =>
    obtain rfl := Except.ok.inj h
    exact hfound
  | cons v rest ih =>
    obtain ⟨more, hmore, h⟩ := Outcome.bind_eq_ok_iff.1 h
    refine ih (fun c hc => ?_) h
    exact (NameSet.mem_union.1 hc).elim (hfound c) (mem_capabilities_of_expandDatum hm hd hmore c)

/-- Data is a name exactly if it is the text of that name. -/
theorem Value.asName_eq_ok_some_iff {v : Value} {name : Text} :
    v.asName = .ok (some name) ↔ v = .text name := by
  cases v <;> simp [asName, lookedUp, unfit?, isNested, text?, Except.map]

/-- Only a text can be the name of a resource. -/
theorem Model.definitionAsked_eq_ok_iff {m : Model} {v : Value} {name : Text} {d : Definition} :
    m.definitionAsked v = .ok (name, d) ↔ v = .text name ∧ m.resources.find? name = some d := by
  constructor
  · intro h
    obtain ⟨_ | name', hname, h⟩ := Outcome.bind_eq_ok_iff.1 h
    · cases h
    obtain rfl := Value.asName_eq_ok_some_iff.1 hname
    obtain ⟨d', hd', hsame⟩ := Outcome.map_eq_ok_iff.1 h
    obtain ⟨rfl, rfl⟩ := Prod.mk.inj hsame
    have hdefined := Outcome.mapError_eq_ok_iff.1 hd'
    unfold definition at hdefined
    split at hdefined
    · cases hdefined
    · next hfind => exact ⟨rfl, Except.ok.inj hdefined ▸ hfind⟩
  · rintro ⟨rfl, hd⟩
    have hdefined : m.definition name = .ok d := by rw [definition, hd]
    refine Outcome.bind_eq_ok_iff.2 ⟨some name, rfl, ?_⟩
    dsimp only
    rw [hdefined]
    rfl
/-- An offered rule that is compiled is about a resource that is defined. -/
theorem OfferedRule.declares_of_compile (hm : m.IsValidated) {r : OfferedRule} {policy : Value}
    {e : Text × LooseCompiledRule} (h : r.compile m policy = .ok e) :
    m.resources.Declares e.1 e.2.Grants := by
  obtain ⟨resource, -, h⟩ := Outcome.bind_eq_ok_iff.1 h
  obtain ⟨⟨name, d⟩, hasked, h⟩ := Outcome.bind_eq_ok_iff.1 h
  obtain ⟨requested, -, h⟩ := Outcome.bind_eq_ok_iff.1 h
  obtain ⟨found, hfound, h⟩ := Outcome.bind_eq_ok_iff.1 h
  obtain ⟨filter, -, h⟩ := Outcome.bind_eq_ok_iff.1 h
  obtain rfl := Except.ok.inj h
  obtain ⟨-, hd⟩ := Model.definitionAsked_eq_ok_iff.1 (Outcome.mapError_eq_ok_iff.1 hasked)
  have hcaps := Definition.mem_capabilities_of_expandData hm hd
    (fun c hc => absurd hc (NameSet.not_mem_empty c)) (Outcome.mapError_eq_ok_iff.1 hfound)
  refine ⟨d, hd, ?_⟩
  rintro v ⟨c, hc, rfl⟩
  exact ⟨c, hcaps c hc, rfl⟩

/-- Rules that are grouped by their resources declare what each of them does. -/
theorem all_declares_group {ρ : Type} {G : ρ → Value → Prop} {l : List (Text × ρ)}
    (h : ∀ e ∈ l, m.resources.Declares e.1 (G e.2)) :
    (NameMap.group l).All fun resource rules =>
      m.resources.Declares resource fun v => ∃ r ∈ rules, G r v := by
  refine (NameMap.all_empty _).foldl_insert fun e he groups hgroups => ?_
  rcases hfind : groups.find? e.1 with _ | rules
  · refine (h e he).mono fun v => ?_
    rintro ⟨r, hr, hv⟩
    obtain rfl := List.mem_singleton.1 hr
    exact hv
  · refine ((hgroups e.1 rules hfind).or (h e he)).mono fun v => ?_
    rintro ⟨r, hr, hv⟩
    rcases List.mem_append.1 hr with hr | hr
    · exact .inl ⟨r, hr, hv⟩
    · obtain rfl := List.mem_singleton.1 hr
      exact .inr hv

/-- Rules that are compiled declare what each of them does. -/
theorem Rule.declares_of_compileEach (hm : m.IsValidated) {rules : List Rule} {policy : Text}
    {l : List (Text × CompiledRule)}
    (h : List.Forall₂ (fun r e => e.1 = r.resource ∧ r.compile m policy = .ok e.2) rules l) :
    ∀ e ∈ l, m.resources.Declares e.1 e.2.loosen.Grants :=
  forall_mem_of_forall₂ (h.imp fun r _ he => he.1 ▸ r.declares_of_compile hm he.2)

/-- Offered rules that are compiled declare what each of them does. -/
theorem OfferedPolicy.declares_of_compileEach (hm : m.IsValidated) {rules : List OfferedRule}
    {policy : Value} {l : List (Text × LooseCompiledRule)}
    (h : compileEach m policy rules = .ok l) :
    ∀ e ∈ l, m.resources.Declares e.1 e.2.Grants := by
  induction rules generalizing l with
  | nil =>
    obtain rfl := Except.ok.inj h
    exact fun _ he => nomatch he
  | cons r rest ih =>
    obtain ⟨e, he, h⟩ := Outcome.bind_eq_ok_iff.1 h
    obtain ⟨more, hmore, h⟩ := Outcome.bind_eq_ok_iff.1 h
    obtain rfl := Except.ok.inj h
    exact List.forall_mem_cons.2 ⟨r.declares_of_compile hm he, ih hmore⟩

/-- **What a policy compiles to is for the model.** -/
theorem OfferedPolicy.isFor_of_compile (hm : m.IsValidated) {o : OfferedPolicy} {c : AnyCompiled}
    (h : o.compile m = .ok c) : c.IsFor m := by
  rcases hstrict : o.strict? with _ | p
  · rw [compile, hstrict] at h
    obtain ⟨rules, -, h⟩ := Outcome.bind_eq_ok_iff.1 h
    obtain ⟨compiled, hcompiled, h⟩ := Outcome.bind_eq_ok_iff.1 h
    obtain rfl := Except.ok.inj h
    exact ⟨rfl, all_declares_group (declares_of_compileEach hm hcompiled)⟩
  · obtain ⟨c, hc, rfl⟩ := (compile_strict_eq_ok_iff hstrict).1 h
    obtain ⟨l, hl, rfl⟩ := Policy.compile_eq_ok_iff.1 hc
    have hgroup := all_declares_group (G := fun (r : CompiledRule) => r.loosen.Grants)
      (Rule.declares_of_compileEach hm hl)
    refine ⟨rfl, NameMap.all_mapValues_iff.2 fun resource rules hfind => ?_⟩
    refine (hgroup resource rules hfind).mono fun v => ?_
    rintro ⟨_, hr, hv⟩
    obtain ⟨r, hmem, rfl⟩ := List.mem_map.1 hr
    exact ⟨r, hmem, hv⟩

/-! ### Merging -/

section Adding

variable {π γ ρ : Type} {H : γ → Value → Prop} {G : ρ → Value → Prop} {z : γ} {add : γ → ρ → γ}

/-- Adding rules to grants adds what the rules grant. -/
theorem holds_foldl_add (hadd : ∀ g r v, H (add g r) v → H g v ∨ G r v) {l : List ρ} {g : γ}
    {v : Value} (h : H (l.foldl add g) v) : H g v ∨ ∃ r ∈ l, G r v := by
  induction l generalizing g with
  | nil => exact .inl h
  | cons r rest ih =>
    rcases ih h with h | ⟨r', hr', hv⟩
    · exact (hadd g r v h).imp_right fun hv => ⟨r, List.mem_cons_self, hv⟩
    · exact .inr ⟨r', List.mem_cons_of_mem _ hr', hv⟩

/-- **Adding the rules of policies to grants stays within a model** if the rules do. -/
theorem all_declares_foldl (hz : ∀ v, ¬ H z v) (hadd : ∀ g r v, H (add g r) v → H g v ∨ G r v)
    {rules : π → NameMap (List ρ)} {policies : List π} {grants : NameMap γ}
    (hrules : ∀ p ∈ policies, (rules p).All fun resource rules =>
      m.resources.Declares resource fun v => ∃ r ∈ rules, G r v)
    (hgrants : grants.All fun resource g => m.resources.Declares resource (H g)) :
    (policies.foldl (fun grants p => (rules p).entries.foldl (fun found e =>
      found.insert e.1 (e.2.foldl add ((found.find? e.1).getD z))) grants) grants).All
      fun resource g => m.resources.Declares resource (H g) := by
  induction policies generalizing grants with
  | nil => exact hgrants
  | cons p rest ih =>
    obtain ⟨hp, hrest⟩ := List.forall_mem_cons.1 hrules
    refine ih hrest (hgrants.foldl_insert fun e he found hfound => ?_)
    have hrule := hp e.1 e.2 (NameMap.find?_eq_some_iff.2 he)
    rcases hfind : found.find? e.1 with _ | g
    · exact hrule.mono fun v hv => (holds_foldl_add hadd hv).resolve_left (hz v)
    · exact ((hfound e.1 g hfind).or hrule).mono fun v hv => holds_foldl_add hadd hv

end Adding

namespace ResourceGrants

/-- What is granted on a resource in a list of texts, on whatever instance. -/
def Holds (g : ResourceGrants) (v : Value) : Prop := ∃ item c, g.allows item c = true ∧ v = .text c

variable {g : ResourceGrants} {v : Value}

/-- Empty grants hold nothing. -/
theorem not_holds_empty (v : Value) : ¬ empty.Holds v :=
  fun ⟨item, c, h, _⟩ => not_allows_empty item c h

/-- A rule adds nothing to hold but what it grants. -/
theorem holds_addRule {r : CompiledRule} (h : (g.addRule r).Holds v) :
    g.Holds v ∨ r.loosen.Grants v := by
  obtain ⟨item, c, hallows, rfl⟩ := h
  rcases allows_addRule.1 hallows with hallows | ⟨-, hc⟩
  · exact .inl ⟨item, c, hallows, rfl⟩
  · exact .inr ⟨c, hc, rfl⟩

/-- Grants hold nothing more when they are read as those of any data. -/
theorem holds_of_loosen (h : g.loosen.Holds v) : g.Holds v := by
  rcases h with h | ⟨e, he, h⟩
  · obtain ⟨c, hc, rfl⟩ := List.mem_map.1 h
    exact ⟨wildcard, c, allows_iff.2 (.inl (NameMap.mem_names_iff.1 hc)), rfl⟩
  · obtain ⟨⟨item, found⟩, hmem, rfl⟩ := List.mem_map.1 he
    obtain ⟨c, hc, rfl⟩ := List.mem_map.1 h
    refine ⟨item, c, allows_iff.2 (.inr ?_), rfl⟩
    rw [exactly, NameMap.find?_eq_some_iff.2 hmem]
    exact NameMap.mem_names_iff.1 hc

end ResourceGrants

namespace LooseGrants

variable {g : LooseGrants} {v : Value}

/-- Empty grants of any data hold nothing. -/
theorem not_holds_empty (v : Value) : ¬ empty.Holds v := by
  rintro (h | ⟨_, h, -⟩) <;> cases h

/-- Adding to the grants of one instance brings in nothing but what is added. -/
theorem mem_of_addExact {item : Value} {added : List Value} {l : List (Value × List Value)}
    (h : ∃ e ∈ addExact item added l, v ∈ e.2) : (∃ e ∈ l, v ∈ e.2) ∨ v ∈ added := by
  induction l with
  | nil =>
    obtain ⟨e, he, hv⟩ := h
    obtain rfl := List.mem_singleton.1 he
    exact .inr hv
  | cons e rest ih =>
    obtain ⟨e', he', hv⟩ := h
    unfold addExact at he'
    split at he' <;> rcases List.mem_cons.1 he' with rfl | he'
    · rcases List.mem_append.1 (Value.mem_of_mem_distinct hv) with hv | hv
      · exact .inl ⟨e, List.mem_cons_self, hv⟩
      · exact .inr hv
    · exact .inl ⟨e', List.mem_cons_of_mem _ he', hv⟩
    · exact .inl ⟨e, List.mem_cons_self, hv⟩
    · exact (ih ⟨e', he', hv⟩).imp_left fun ⟨e, he, hv⟩ => ⟨e, List.mem_cons_of_mem _ he, hv⟩

/-- A rule that is added grants its capabilities. -/
theorem holds_addRule {r : LooseCompiledRule} (h : (g.addRule r).Holds v) :
    g.Holds v ∨ r.Grants v := by
  have hgrants : v ∈ r.capabilities.names.map Value.text → r.Grants v := by
    intro hv
    obtain ⟨c, hc, rfl⟩ := List.mem_map.1 hv
    exact ⟨c, NameMap.mem_names_iff.1 hc, rfl⟩
  unfold addRule at h
  dsimp only at h
  split at h
  · rcases h with h | h
    · exact (List.mem_append.1 (Value.mem_of_mem_distinct h)).imp .inl hgrants
    · exact .inl (.inr h)
  · rcases h with h | h
    · exact .inl (.inl h)
    · exact (mem_of_addExact h).imp .inr hgrants

/-- The same is granted, in whatever order. -/
structure Reorders (g g' : LooseGrants) : Prop where
  /-- On every instance. -/
  everywhere : ∀ v, v ∈ g'.everywhere ↔ v ∈ g.everywhere
  /-- On single instances. -/
  exact : List.Forall₂ (fun e e' => e.1 = e'.1 ∧ ∀ v, v ∈ e'.2 ↔ v ∈ e.2) g.exact g'.exact

/-- Grants in another order hold the same. -/
theorem Reorders.holds {g' : LooseGrants} (h : g.Reorders g') (hv : g'.Holds v) : g.Holds v := by
  refine hv.imp (h.everywhere v).1 ?_
  rintro ⟨e', he', hv⟩
  have hback : ∀ e' ∈ g'.exact, ∀ v ∈ e'.2, ∃ e ∈ g.exact, v ∈ e.2 := by
    have hexact := h.exact
    generalize g.exact = l at hexact ⊢
    generalize g'.exact = l' at hexact
    induction hexact with
    | nil => exact fun _ he => nomatch he
    | cons he _ ih =>
      refine List.forall_mem_cons.2 ⟨fun v hv => ⟨_, List.mem_cons_self, (he.2 v).1 hv⟩, ?_⟩
      intro e' he' v hv
      obtain ⟨e, hmem, hv⟩ := ih e' he' v hv
      exact ⟨e, List.mem_cons_of_mem _ hmem, hv⟩
  exact hback e' he' v hv

/-- Grants of texts can be put in order. -/
theorem exists_sorted {l : List Value} (h : ∀ v ∈ l, ∃ c, v = .text c) :
    ∃ l', Value.sorted l = .ok l' ∧ ∀ v, v ∈ l' ↔ v ∈ l := by
  have hnames : ∃ names : List Text, l = names.map .text := by
    induction l with
    | nil => exact ⟨[], rfl⟩
    | cons v rest ih =>
      obtain ⟨⟨c, rfl⟩, hrest⟩ := List.forall_mem_cons.1 h
      obtain ⟨names, rfl⟩ := ih hrest
      exact ⟨c :: names, rfl⟩
  obtain ⟨names, rfl⟩ := hnames
  refine ⟨_, Value.sorted_texts names, fun v => ?_⟩
  simp only [List.mem_map, mem_sortNames]

/-- **Grants of texts can be put in order,** and stay the same. -/
theorem exists_ordered (h : ∀ v, g.Holds v → ∃ c, v = .text c) :
    ∃ g', g.ordered = .ok g' ∧ g.Reorders g' := by
  obtain ⟨everywhere, heverywhere, hsame⟩ := exists_sorted fun v hv => h v (.inl hv)
  obtain ⟨exact', hexact, hsames⟩ : ∃ l', (g.exact.mapM fun e => (Value.sorted e.2).map fun found =>
      (e.1, found)) = .ok l' ∧
      List.Forall₂ (fun e e' => e.1 = e'.1 ∧ ∀ v, v ∈ e'.2 ↔ v ∈ e.2) g.exact l' := by
    refine Outcome.exists_mapM_eq_ok fun e he => ?_
    obtain ⟨found, hfound, hmem⟩ := exists_sorted fun v hv => h v (.inr ⟨e, he, hv⟩)
    exact ⟨(e.1, found), by rw [hfound]; rfl, rfl, hmem⟩
  refine ⟨⟨everywhere, exact'⟩, ?_, hsame, hsames⟩
  simp only [ordered, heverywhere, hexact]
  rfl

end LooseGrants

/-- What is left of a list where each member counts once is empty if the list is. -/
theorem OrderedMap.distinct_eq_nil_iff {κ : Type} [DecidableEq κ] {l : List κ} :
    distinct l = [] ↔ l = [] := by
  simp only [List.eq_nil_iff_forall_not_mem, mem_distinct]

/-- The fingerprint of a list of texts whose policies are all compiled for one model. -/
theorem Acl.commonModel_eq {policies : List CompiledPolicy} {fingerprint : Option Text}
    (h : ∀ p ∈ policies, (AnyCompiled.strict p).IsFor m)
    (hmodel : commonModel policies = .ok fingerprint) :
    fingerprint = if policies = [] then none else some m.fingerprint := by
  cases policies with
  | nil => exact (Except.ok.inj hmodel).symm
  | cons p rest =>
    have hp : p.modelFingerprint = m.fingerprint := Value.text.inj (h p List.mem_cons_self).model
    simp only [commonModel] at hmodel
    split at hmodel
    · cases hmodel
    · rw [← Except.ok.inj hmodel, hp, if_neg (List.cons_ne_nil _ _)]

/-- **Policies of texts that are compiled for one model are merged to a list for it.** -/
theorem Acl.isFor_of_merge {policies : List CompiledPolicy} {a : Acl}
    (h : ∀ p ∈ policies, (AnyCompiled.strict p).IsFor m) (hmerge : merge policies = .ok a) :
    (AnyAcl.strict a).IsFor m ∧ ((AnyAcl.strict a).loosen.policies = [] ↔ policies = []) := by
  unfold merge at hmerge
  split at hmerge
  · cases hmerge
  next fingerprint hmodel =>
  obtain rfl := Except.ok.inj hmerge
  have hnil : (OrderedMap.distinct (policies.map (·.name))).map Value.text = [] ↔ policies = [] := by
    rw [List.map_eq_nil_iff, OrderedMap.distinct_eq_nil_iff, List.map_eq_nil_iff]
  have hrules : ∀ p ∈ policies, p.rules.All fun resource rules =>
      m.resources.Declares resource fun v => ∃ r ∈ rules, r.loosen.Grants v := by
    intro p hp resource rules hfind
    refine (NameMap.all_mapValues_iff.1 (h p hp).rules resource rules hfind).mono fun v => ?_
    rintro ⟨r, hr, hv⟩
    exact ⟨r.loosen, List.mem_map_of_mem hr, hv⟩
  have hgrants := all_declares_foldl (G := fun r : CompiledRule => r.loosen.Grants)
    ResourceGrants.not_holds_empty (fun _ _ _ => ResourceGrants.holds_addRule) hrules
    (NameMap.all_empty _)
  refine ⟨⟨?_, NameMap.all_mapValues_iff.2 fun resource g hfind =>
    (hgrants resource g hfind).mono fun v => ResourceGrants.holds_of_loosen⟩, hnil⟩
  simp only [AnyAcl.loosen, loosen, hnil, commonModel_eq h hmodel]
  by_cases hpolicies : policies = [] <;> simp [hpolicies]

/-- The fingerprint of compiled policies for one model. -/
theorem LooseAcl.modelOf_eq {policies : List AnyCompiled} (h : ∀ c ∈ policies, c.IsFor m) :
    modelOf policies = if policies = [] then .null else .text m.fingerprint := by
  have hfold : ∀ l : List AnyCompiled, (∀ c ∈ l, c.IsFor m) →
      l.foldl (fun z c => orElse z c.modelFingerprint) (.text m.fingerprint) =
        .text m.fingerprint := by
    intro l
    induction l with
    | nil => exact fun _ => rfl
    | cons c rest ih => exact fun hl => ih (List.forall_mem_cons.1 hl).2
  cases policies with
  | nil => rfl
  | cons c rest =>
    obtain ⟨hc, hrest⟩ := List.forall_mem_cons.1 h
    rw [if_neg (List.cons_ne_nil _ _), modelOf, List.foldl_cons, hc.model]
    exact hfold rest hrest

/-- Grants that stay within a model can be put in order. -/
theorem LooseAcl.exists_ordered {a : LooseAcl}
    (h : a.grants.All fun resource g => m.resources.Declares resource g.Holds) :
    ∃ grants, a.ordered = .ok { a with grants := grants } ∧
      a.grants.Rel LooseGrants.Reorders grants := by
  obtain ⟨l, hl, hall⟩ : ∃ l, (a.grants.entries.mapM fun e => e.2.ordered.map fun g => (e.1, g)) =
      .ok l ∧ List.Forall₂ (fun e e' => e.1 = e'.1 ∧ e.2.Reorders e'.2) a.grants.entries l := by
    refine Outcome.exists_mapM_eq_ok fun e he => ?_
    obtain ⟨d, -, hd⟩ := h e.1 e.2 (NameMap.find?_eq_some_iff.2 he)
    obtain ⟨g, hg, hsame⟩ := LooseGrants.exists_ordered fun v hv => (hd v hv).imp fun _ hc => hc.2
    exact ⟨(e.1, g), by rw [hg]; rfl, rfl, hsame⟩
  refine ⟨NameMap.ofList l, ?_, NameMap.rel_ofList hall⟩
  simp only [ordered, hl]
  rfl

/-- What compiled policies for one model grant stays within it. -/
theorem LooseAcl.all_declares_foldl_addPolicy {policies : List AnyCompiled}
    (h : ∀ c ∈ policies, c.IsFor m) :
    (policies.foldl addPolicy ∅).All fun resource g => m.resources.Declares resource g.Holds :=
  all_declares_foldl (G := LooseCompiledRule.Grants) LooseGrants.not_holds_empty
    (fun _ _ _ => LooseGrants.holds_addRule) (fun c hc => (h c hc).rules) (NameMap.all_empty _)

/-- **Compiled policies for one model are merged** if their names can be members of a set. -/
theorem LooseAcl.exists_ofPolicies {policies : List AnyCompiled} (h : ∀ c ∈ policies, c.IsFor m)
    {names : List Value}
    (hnames : Value.distinctMembers (policies.map AnyCompiled.name) = .ok names) :
    ∃ grants, ofPolicies policies = .ok ⟨grants, names, modelOf policies⟩ ∧
      (policies.foldl addPolicy ∅).Rel LooseGrants.Reorders grants := by
  obtain ⟨grants, hgrants, hrel⟩ := exists_ordered
    (a := ⟨policies.foldl addPolicy ∅, names, modelOf policies⟩) (all_declares_foldl_addPolicy h)
  refine ⟨grants, ?_, hrel⟩
  unfold ofPolicies
  rw [hnames]
  exact hgrants

/-- **Compiled policies for one model are merged to a list for it** if their names can be members of
a set. -/
theorem LooseAcl.ofPolicies_spec {policies : List AnyCompiled} (h : ∀ c ∈ policies, c.IsFor m) :
    match ofPolicies policies with
    | .ok a => (AnyAcl.loose a).IsFor m ∧ (a.policies = [] ↔ policies = [])
    | .error p => ∃ shape, p = .unfitForKey shape := by
  rcases hunfit : (policies.map AnyCompiled.name).findSome? Value.unfit? with _ | p
  · have hnames : Value.distinctMembers (policies.map AnyCompiled.name) =
        .ok (Value.distinct (policies.map AnyCompiled.name)) := by
      rw [Value.distinctMembers, hunfit]
    obtain ⟨grants, hgrants, hrel⟩ := exists_ofPolicies h hnames
    have hnil : Value.distinct (policies.map AnyCompiled.name) = [] ↔ policies = [] := by
      cases policies <;> simp [Value.distinct]
    simp only [hgrants]
    refine ⟨⟨?_, ?_⟩, hnil⟩
    · simp only [AnyAcl.loosen, hnil, modelOf_eq h]
    · exact hrel.all (all_declares_foldl_addPolicy h) fun _ _ _ hsame hd =>
        hd.mono fun _ => hsame.holds
  · obtain ⟨v, -, hv⟩ := List.exists_of_findSome?_eq_some hunfit
    unfold Value.unfit? at hv
    split at hv
    · simp only [ofPolicies, Value.distinctMembers, hunfit]
      exact ⟨v.shapeName, (Option.some.inj hv).symm⟩
    · cases hv

/-- The rules that are gathered are those that were authored. -/
theorem LooseCompiledPolicy.mem_gathered_iff (p : LooseCompiledPolicy) {r : LooseCompiledRule} :
    r ∈ p.gathered ↔ ∃ resource, (resource, r) ∈ p.authored := by
  simp only [gathered, List.mem_flatMap, List.mem_map, List.mem_filter, OrderedMap.mem_distinct]
  constructor
  · rintro ⟨_, -, ⟨resource, _⟩, ⟨he, -⟩, rfl⟩
    exact ⟨resource, he⟩
  · rintro ⟨resource, he⟩
    exact ⟨resource, ⟨_, he, rfl⟩, _, ⟨he, beq_self_eq_true _⟩, rfl⟩

namespace AnyAcl

variable {policies : List AnyCompiled}

/-- The fingerprint of a list that policies for one model are merged into, one after the other. -/
def SoFar (m : ValidModel) (fingerprint : Value) : Prop :=
  fingerprint = .null ∨ fingerprint = .text m.fingerprint

/-- Taking the model of one more policy keeps the promise, as long as it is compiled for that model.
-/
theorem SoFar.orElse {fingerprint : Value} {c : AnyCompiled} (h : SoFar m fingerprint)
    (hc : c.IsFor m) : SoFar m (LooseAcl.orElse fingerprint c.modelFingerprint) := by
  rcases h with rfl | rfl
  · exact .inr hc.model
  · exact .inr rfl

/-- The filters of a compiled policy can be looked up. -/
def FitFilters : AnyCompiled → Prop
  | .strict _ => True
  | .loose p => ∀ e ∈ p.authored, e.2.filter.unfit? = none

/-- What can be wrong with a policy for the same model is a filter that cannot be looked up. -/
theorem refusal?_spec {fingerprint : Value} {c : AnyCompiled} (hc : c.IsFor m)
    (h : SoFar m fingerprint) :
    match refusal? fingerprint c with
    | none => FitFilters c
    | some p => ¬ FitFilters c ∧ ∃ shape, p = .unfitForKey shape := by
  have hsame : (fingerprint != .null && c.modelFingerprint != fingerprint) = false := by
    rcases h with rfl | rfl <;> simp [hc.model]
  simp only [refusal?, hsame, Bool.false_eq_true, ↓reduceIte]
  cases c with
  | strict p => trivial
  | loose p =>
    dsimp only
    rcases hfind : p.gathered.findSome? (fun r => r.filter.unfit?) with _ | problem <;> rw [hfind]
    · intro e he
      exact List.findSome?_eq_none_iff.1 hfind e.2 ((p.mem_gathered_iff).2 ⟨e.1, he⟩)
    · obtain ⟨r, hr, hunfit⟩ := List.exists_of_findSome?_eq_some hfind
      obtain ⟨resource, he⟩ := p.mem_gathered_iff.1 hr
      refine ⟨fun hfit => ?_, ?_⟩
      · rw [hfit (resource, r) he] at hunfit
        cases hunfit
      · unfold Value.unfit? at hunfit
        split at hunfit
        · exact ⟨_, (Option.some.inj hunfit).symm⟩
        · cases hunfit

/-- **Compiled policies for one model are refused only for their filters.** -/
theorem refusalFrom?_spec (h : ∀ c ∈ policies, c.IsFor m) {fingerprint : Value}
    (hfingerprint : SoFar m fingerprint) :
    match refusalFrom? fingerprint policies with
    | none => ∀ c ∈ policies, FitFilters c
    | some p => (¬ ∀ c ∈ policies, FitFilters c) ∧ ∃ shape, p = .unfitForKey shape := by
  induction policies generalizing fingerprint with
  | nil => exact fun _ hc => nomatch hc
  | cons c rest ih =>
    obtain ⟨hc, hrest⟩ := List.forall_mem_cons.1 h
    have hfirst := refusal?_spec hc hfingerprint
    have hlater := ih hrest (hfingerprint.orElse hc)
    rw [refusalFrom?]
    rcases hrefusal : refusal? fingerprint c with _ | p <;> rw [hrefusal] at hfirst
    · rw [Option.none_or]
      rcases hmore : refusalFrom? (LooseAcl.orElse fingerprint c.modelFingerprint) rest with _ | p <;>
        rw [hmore] at hlater
      · exact List.forall_mem_cons.2 ⟨hfirst, hlater⟩
      · exact ⟨fun hall => hlater.1 (List.forall_mem_cons.1 hall).2, hlater.2⟩
    · exact ⟨fun hall => hfirst.1 (List.forall_mem_cons.1 hall).1, hfirst.2⟩

/-- Policies that all consist of texts. -/
theorem eq_map_of_allStrict? {l : List CompiledPolicy}
    (h : AnyCompiled.allStrict? policies = some l) : policies = l.map .strict := by
  induction policies generalizing l with
  | nil =>
    obtain rfl := Option.some.inj h
    rfl
  | cons c rest ih =>
    cases c with
    | loose p => cases h
    | strict p =>
      obtain ⟨l', hl', rfl⟩ := Option.map_eq_some_iff.1 h
      rw [ih hl', List.map_cons]

/-- **Compiled policies for one model are merged to a list for it,** which lists no policies exactly
if there are none, or there is a problem; but it is never that they are of different models. -/
theorem merge_spec (h : ∀ c ∈ policies, c.IsFor m) :
    match merge policies with
    | .ok a => a.IsFor m ∧ (a.loosen.policies = [] ↔ policies = [])
    | .error p => ∀ name, p ≠ .fault (.modelMismatch name) := by
  unfold merge
  rcases hstrict : AnyCompiled.allStrict? policies with _ | l
  · dsimp only
    rcases hrefusal : firstRefusal? policies with _ | p
    · have hspec := LooseAcl.ofPolicies_spec h
      rcases hmerge : LooseAcl.ofPolicies policies with p | a <;> rw [hmerge] at hspec
      · obtain ⟨shape, rfl⟩ := hspec
        exact fun _ => nofun
      · exact hspec
    · have hspec := refusalFrom?_spec h (.inl rfl)
      unfold firstRefusal? at hrefusal
      rw [hrefusal] at hspec
      obtain ⟨-, shape, rfl⟩ := hspec
      exact fun _ => nofun
  · obtain rfl := eq_map_of_allStrict? hstrict
    have hl : ∀ p ∈ l, (AnyCompiled.strict p).IsFor m := fun p hp => h _ (List.mem_map_of_mem hp)
    obtain ⟨a, ha⟩ := Acl.exists_merge fun p hp => Value.text.inj (hl p hp).model
    obtain ⟨hfor, hnil⟩ := Acl.isFor_of_merge hl ha
    simp only [ha, Except.mapError, Except.map, List.map_eq_nil_iff]
    exact ⟨hfor, hnil⟩

end AnyAcl

end Gatehouse
