import Gatehouse.Proofs.Acl.Decision
import Gatehouse.Proofs.Acl.Merged
import Gatehouse.Proofs.Policy.Growth
import Gatehouse.Proofs.Policy.Names

/-!
# Growing a model takes no grant away

Policies that are compiled against a grown model hold the same rules as before, each granting no
less.  So nothing is lost in any of the stages of merging them, whether they consist of texts
(`ResourceGrants.Grows`) or hold other data, too (`LooseGrants.Grows`).  Main statement: a policy
that compiles against a model compiles against a grown one, and what is authorized by merged
policies stays authorized (`AnyAcl.isAuthorized_merge_grows`).
-/

namespace Gatehouse

/-! ### What is granted -/

namespace Value

variable {v : Value} {l l' : List Value}

/-- What is among the members of either list is among those of both together. -/
theorem among_append : v.among (l ++ l') = (v.among l || v.among l') := List.any_append

/-- Lists with the same members have the same data among them. -/
theorem among_congr (h : ∀ w, w ∈ l ↔ w ∈ l') : v.among l = v.among l' := by
  rw [Bool.eq_iff_iff]
  simp only [among, List.any_eq_true, h]

/-- Among the names of a set are the texts of its members, and no other data. -/
theorem among_names_iff {s : NameSet} :
    v.among (s.names.map .text) = true ↔ ∃ c ∈ s, v = .text c := by
  simp only [among, List.any_map, List.any_eq_true, Function.comp_apply, NameMap.mem_names_iff]
  refine exists_congr fun c => and_congr_right fun _ => ⟨text_eq_of_same, ?_⟩
  rintro rfl
  exact same_self _

/-- A larger set has more among its names. -/
theorem among_names_mono {s s' : NameSet} (h : ∀ c ∈ s, c ∈ s') (v : Value)
    (hv : v.among (s.names.map .text) = true) : v.among (s'.names.map .text) = true := by
  obtain ⟨c, hc, rfl⟩ := among_names_iff.1 hv
  exact among_names_iff.2 ⟨c, h c hc, rfl⟩

end Value

/-- **Grants of texts grow:** no capability is lost. -/
structure ResourceGrants.Grows (g g' : ResourceGrants) : Prop where
  /-- On every instance. -/
  everywhere : ∀ c ∈ g.everywhere, c ∈ g'.everywhere
  /-- On single instances. -/
  exactly : ∀ item, ∀ c ∈ g.exactly item, c ∈ g'.exactly item

/-- **Grants grow:** nothing that is granted is lost. -/
structure LooseGrants.Grows (g g' : LooseGrants) : Prop where
  /-- On every instance. -/
  everywhere : ∀ v : Value, v.among g.everywhere = true → v.among g'.everywhere = true
  /-- On single instances. -/
  exactly : ∀ item v : Value, v.among (g.exactly item) = true → v.among (g'.exactly item) = true

namespace ResourceGrants

variable {g g' : ResourceGrants}

/-- Grants are no less than themselves. -/
theorem Grows.refl (g : ResourceGrants) : g.Grows g := ⟨fun _ hc => hc, fun _ _ hc => hc⟩

/-- Adding a rule that has grown grants no less. -/
theorem Grows.addRule (h : g.Grows g') {r r' : CompiledRule} (hr : r.loosen.Grows r'.loosen) :
    (g.addRule r).Grows (g'.addRule r') := by
  have hfilter : r.filter = r'.filter := Value.text.inj hr.filter
  unfold ResourceGrants.addRule CompiledRule.isWildcard
  rw [hfilter]
  split
  · exact ⟨NameSet.mem_union_mono h.everywhere hr.capabilities, h.exactly⟩
  · refine ⟨h.everywhere, fun item => ?_⟩
    simp only [ResourceGrants.exactly, NameMap.find?_insert]
    split
    · exact NameSet.mem_union_mono (h.exactly r'.filter) hr.capabilities
    · exact h.exactly item

/-- Grants on texts grant nothing on an instance that is other data, other than on every one. -/
theorem exactly_loosen_of_text?_eq_none {item : Value} (h : item.text? = none) :
    g.loosen.exactly item = [] := by
  have hfind : g.loosen.exact.find? (fun e => e.1.same item) = none := by
    rw [List.find?_eq_none]
    intro e he hsame
    obtain ⟨⟨key, found⟩, -, rfl⟩ := List.mem_map.1 he
    rw [Value.same_comm] at hsame
    rw [Value.text_eq_of_same hsame] at h
    cases h
  rw [LooseGrants.exactly, hfind]
  rfl

/-- Grants of texts that grow do so as grants of any data. -/
theorem Grows.loosen (h : g.Grows g') : g.loosen.Grows g'.loosen := by
  refine ⟨Value.among_names_mono h.everywhere, fun item v hv => ?_⟩
  cases item with
  | text item =>
    rw [LooseGrants.exactly_loosen] at hv ⊢
    exact Value.among_names_mono (h.exactly item) v hv
  | _ =>
    rw [exactly_loosen_of_text?_eq_none rfl] at hv
    cases hv

end ResourceGrants

namespace LooseGrants

variable {g g' g'' : LooseGrants}

/-- Grants of any data are no less than themselves. -/
theorem Grows.refl (g : LooseGrants) : g.Grows g := ⟨fun _ hv => hv, fun _ _ hv => hv⟩

/-- What grew twice has grown. -/
theorem Grows.trans (h : g.Grows g') (h' : g'.Grows g'') : g.Grows g'' :=
  ⟨fun v hv => h'.everywhere v (h.everywhere v hv),
    fun item v hv => h'.exactly item v (h.exactly item v hv)⟩

/-- What is added on an instance is granted on every instance that counts as equal to it. -/
theorem among_exactly_addExact (everywhere : List Value) (l : List (Value × List Value))
    (item : Value) (added : List Value) (asked v : Value) :
    v.among (LooseGrants.exactly ⟨everywhere, addExact item added l⟩ asked) =
      (v.among (LooseGrants.exactly ⟨everywhere, l⟩ asked) ||
        (item.same asked && v.among added)) := by
  induction l with
  | nil => cases h : item.same asked <;> simp [exactly, addExact, h, Value.among]
  | cons e rest ih =>
    obtain ⟨key, found⟩ := e
    simp only [exactly, addExact] at ih ⊢
    rcases hkey : key.same item with _ | _
    · simp only [Bool.false_eq_true, ↓reduceIte, List.find?_cons]
      rcases hasked : key.same asked with _ | _
      · exact ih
      · -- the asked instance is another one
        have hother : item.same asked = false := by
          rw [Value.same_comm, ← Value.same_congr_left hasked, hkey]
        simp [hother]
    · simp only [↓reduceIte, List.find?_cons, Value.same_congr_left hkey]
      rcases item.same asked with _ | _
      · simp
      · simp [Value.among_distinct, Value.among_append]

/-- Adding a rule that has grown grants no less. -/
theorem Grows.addRule (h : g.Grows g') {r r' : LooseCompiledRule} (hr : r.Grows r') :
    (g.addRule r).Grows (g'.addRule r') := by
  have hadded := Value.among_names_mono hr.capabilities
  unfold LooseGrants.addRule LooseCompiledRule.isWildcard
  rw [hr.filter]
  dsimp only
  split
  · refine ⟨fun v hv => ?_, h.exactly⟩
    rw [Value.among_distinct, Value.among_append, Bool.or_eq_true] at hv ⊢
    exact hv.imp (h.everywhere v) (hadded v)
  · refine ⟨h.everywhere, fun item v hv => ?_⟩
    rw [among_exactly_addExact, Bool.or_eq_true, Bool.and_eq_true] at hv ⊢
    exact hv.imp (h.exactly item v) (And.imp_right (hadded v))

/-- The order of the grants makes no difference to what is granted on one instance. -/
theorem Reorders.mem_exactly_iff (h : g.Reorders g') (item v : Value) :
    v ∈ g'.exactly item ↔ v ∈ g.exactly item := by
  have hexact := h.exact
  unfold exactly
  generalize g.exact = l at hexact ⊢
  generalize g'.exact = l' at hexact ⊢
  induction hexact with
  | nil => rfl
  | @cons e e' _ _ he _ ih =>
    rw [List.find?_cons, List.find?_cons, he.1]
    rcases e'.1.same item with _ | _
    · exact ih
    · exact he.2 v

/-- Grants that are put in order are no less, and no more. -/
theorem Reorders.grows (h : g.Reorders g') : g.Grows g' ∧ g'.Grows g := by
  have heverywhere := fun v : Value => Value.among_congr (v := v) h.everywhere
  have hexactly := fun item v : Value => Value.among_congr (v := v) (h.mem_exactly_iff item)
  exact ⟨⟨fun v hv => (heverywhere v).trans hv, fun item v hv => (hexactly item v).trans hv⟩,
    ⟨fun v hv => (heverywhere v).symm.trans hv, fun item v hv => (hexactly item v).symm.trans hv⟩⟩

/-- What is allowed stays allowed. -/
theorem Grows.allows (h : g.Grows g') {item c : Value} (hok : g.allows item c = .ok true) :
    g'.allows item c = .ok true := by
  obtain ⟨c', hc', hok⟩ := Outcome.bind_eq_ok_iff.1 hok
  refine Outcome.bind_eq_ok_iff.2 ⟨c', hc', ?_⟩
  split
  · rfl
  · next hnot =>
    rw [if_neg fun hg => hnot (h.everywhere c' hg)] at hok
    obtain ⟨i, hi, hok⟩ := Outcome.bind_eq_ok_iff.1 hok
    exact Outcome.bind_eq_ok_iff.2 ⟨i, hi, congrArg _ (h.exactly i c' (Except.ok.inj hok))⟩

end LooseGrants

/-! ### Merging -/

/-- Names stay as they are. -/
theorem AnyCompiled.Grows.map_name {cs cs' : List AnyCompiled}
    (h : List.Forall₂ AnyCompiled.Grows cs cs') :
    cs.map AnyCompiled.name = cs'.map AnyCompiled.name :=
  List.forall₂_eq_eq_eq ▸
    List.forall₂_map_left_iff.2 (List.forall₂_map_right_iff.2 (h.imp fun _ _ hc => hc.name_eq))

/-- Texts remain texts, and other data remains other data. -/
theorem AnyCompiled.Grows.allStrict? {cs cs' : List AnyCompiled}
    (h : List.Forall₂ AnyCompiled.Grows cs cs') :
    Option.Rel (List.Forall₂ fun p p' => (AnyCompiled.strict p).Grows (.strict p'))
      (AnyCompiled.allStrict? cs) (AnyCompiled.allStrict? cs') := by
  induction h with
  | nil => exact .some .nil
  | @cons c c' rest rest' hc _ ih =>
    cases hc with
    | strict name rules =>
      simp only [AnyCompiled.allStrict?]
      generalize AnyCompiled.allStrict? rest = x at ih
      generalize AnyCompiled.allStrict? rest' = x' at ih
      cases ih with
      | none => exact .none
      | some hrest => exact .some (.cons (.strict name rules) hrest)
    | loose _ _ => exact .none

/-- Policies of texts that grow are merged to a list that grants no less. -/
theorem Acl.merge_grows {ps ps' : List CompiledPolicy} {a a' : Acl}
    (h : List.Forall₂ (fun p p' => (AnyCompiled.strict p).Grows (.strict p')) ps ps')
    (hmerge : merge ps = .ok a) (hmerge' : merge ps' = .ok a') :
    a.grants.Rel ResourceGrants.Grows a'.grants := by
  rw [grants_of_merge hmerge, grants_of_merge hmerge']
  have hrules : List.Forall₂ (fun p p' : CompiledPolicy =>
      p.rules.Rel (List.Forall₂ fun r r' => r.loosen.Grows r'.loosen) p'.rules) ps ps' := by
    refine h.imp fun p p' hp => ?_
    cases hp with
    | strict _ rules => exact rules
  have hadd : ∀ (g g' : ResourceGrants) (r r' : CompiledRule), g.Grows g' →
      r.loosen.Grows r'.loosen → (g.addRule r).Grows (g'.addRule r') :=
    fun _ _ _ _ hg hr => hg.addRule hr
  exact NameMap.Rel.foldl_insert (ResourceGrants.Grows.refl .empty) hadd hrules NameMap.Rel.empty

namespace LooseAcl

/-- **The grants of a list grow,** resource by resource. -/
def GrantsGrow (grants grants' : NameMap LooseGrants) : Prop :=
  ∀ resource g, grants.find? resource = some g →
    ∃ g', grants'.find? resource = some g' ∧ g.Grows g'

namespace GrantsGrow

variable {grants grants' grants'' : NameMap LooseGrants}

/-- Growth resource by resource is growth. -/
theorem of_rel (h : grants.Rel LooseGrants.Grows grants') : GrantsGrow grants grants' :=
  fun _ _ hfind => h.exists_find? hfind

/-- Grants that grew twice have grown. -/
theorem trans (h : GrantsGrow grants grants') (h' : GrantsGrow grants' grants'') :
    GrantsGrow grants grants'' := by
  intro resource g hfind
  obtain ⟨g', hfind', hgrows⟩ := h resource g hfind
  obtain ⟨g'', hfind'', hgrows'⟩ := h' resource g' hfind'
  exact ⟨g'', hfind'', hgrows.trans hgrows'⟩

/-- Putting grants in order makes them no less, and no more. -/
theorem of_reorders (h : grants.Rel LooseGrants.Reorders grants') :
    GrantsGrow grants grants' ∧ GrantsGrow grants' grants :=
  ⟨of_rel (h.mono fun _ _ hg => hg.grows.1), of_rel (h.flip.mono fun _ _ hg => hg.grows.2)⟩

end GrantsGrow

/-- Adding the rules of policies that grow grants no less. -/
theorem grantsGrow_foldl_addPolicy {cs cs' : List AnyCompiled}
    (h : List.Forall₂ AnyCompiled.Grows cs cs') :
    GrantsGrow (cs.foldl addPolicy ∅) (cs'.foldl addPolicy ∅) := by
  have hrules : List.Forall₂ (fun c c' : AnyCompiled =>
      c.rules.Rel (List.Forall₂ LooseCompiledRule.Grows) c'.rules) cs cs' :=
    h.imp fun _ _ hc => hc.rules
  have hadd : ∀ (g g' : LooseGrants) (r r' : LooseCompiledRule), g.Grows g' → r.Grows r' →
      (g.addRule r).Grows (g'.addRule r') := fun _ _ _ _ hg hr => hg.addRule hr
  exact .of_rel
    (NameMap.Rel.foldl_insert (LooseGrants.Grows.refl .empty) hadd hrules NameMap.Rel.empty)

/-- **What a list authorizes, one that grants no less authorizes.** -/
theorem isAuthorized_grows {a a' : LooseAcl} (h : GrantsGrow a.grants a'.grants)
    {resource item c : Value} (hok : a.isAuthorized resource item c = .ok true) :
    a'.isAuthorized resource item c = .ok true := by
  obtain ⟨_ | g, hg, hok⟩ := Outcome.bind_eq_ok_iff.1 hok
  · cases hok
  obtain ⟨name, hname, hfind⟩ := Outcome.map_eq_ok_iff.1 hg
  obtain ⟨key, rfl, hkey⟩ := Option.bind_eq_some_iff.1 hfind
  obtain ⟨g', hg', hgrows⟩ := h key g hkey
  refine Outcome.bind_eq_ok_iff.2 ⟨some g', ?_, hgrows.allows hok⟩
  exact Outcome.map_eq_ok_iff.2 ⟨some key, hname, hg'⟩

end LooseAcl

namespace AnyAcl

/-- Every list may be asked as one that holds any data. -/
theorem isAuthorized_eq_loosen (a : AnyAcl) (resource item c : Value) :
    a.isAuthorized resource item c = a.loosen.isAuthorized resource item c := by
  unfold isAuthorized
  split
  · exact (LooseAcl.isAuthorized_loosen _ _ _ _).symm
  · rfl

variable {m m' : ValidModel} {cs cs' : List AnyCompiled}

/-- Filters that can be looked up stay so. -/
theorem FitFilters.grows {c c' : AnyCompiled} (h : c.Grows c') (hfit : FitFilters c) :
    FitFilters c' := by
  cases h with
  | strict _ _ => trivial
  | loose _ authored =>
    refine forall_mem_of_forall₂ (List.Forall₂.imp (fun _ _ he => ?_)
      ((List.forall₂_and_left _ _).2 ⟨hfit, authored⟩))
    rw [← he.2.2.filter]
    exact he.1

/-- Policies that are not refused are not refused when they grow. -/
theorem firstRefusal?_grows (h : List.Forall₂ AnyCompiled.Grows cs cs')
    (hcs : ∀ c ∈ cs, c.IsFor m) (hcs' : ∀ c ∈ cs', c.IsFor m') (hnone : firstRefusal? cs = none) :
    firstRefusal? cs' = none := by
  have hspec := refusalFrom?_spec hcs (.inl rfl)
  have hspec' := refusalFrom?_spec hcs' (.inl rfl)
  unfold firstRefusal? at hnone ⊢
  rw [hnone] at hspec
  have hfit : ∀ c' ∈ cs', FitFilters c' :=
    forall_mem_of_forall₂ (List.Forall₂.imp (fun _ _ hc => hc.1.grows hc.2)
      ((List.forall₂_and_left _ _).2 ⟨hspec, h⟩))
  rcases hrefusal : refusalFrom? .null cs' with _ | p
  · rfl
  · rw [hrefusal] at hspec'
    exact absurd hfit hspec'.1

/-- **Policies that grow are merged to a list that grants no less.** -/
theorem exists_merge_grows (h : List.Forall₂ AnyCompiled.Grows cs cs') (hcs : ∀ c ∈ cs, c.IsFor m)
    (hcs' : ∀ c ∈ cs', c.IsFor m') {a : AnyAcl} (hmerge : merge cs = .ok a) :
    ∃ a', merge cs' = .ok a' ∧ LooseAcl.GrantsGrow a.loosen.grants a'.loosen.grants := by
  have hstrict := AnyCompiled.Grows.allStrict? h
  unfold merge at hmerge ⊢
  rcases hps : AnyCompiled.allStrict? cs with _ | ps <;>
    rcases hps' : AnyCompiled.allStrict? cs' with _ | ps' <;>
    rw [hps, hps'] at hstrict <;> cases hstrict
  · -- some of the data is no text
    simp only [hps] at hmerge
    rcases hrefusal : firstRefusal? cs with _ | p <;> simp only [hrefusal, reduceCtorEq] at hmerge
    obtain ⟨b, hb, rfl⟩ := Outcome.map_eq_ok_iff.1 hmerge
    obtain ⟨names, hnames, -⟩ := Outcome.bind_eq_ok_iff.1 hb
    obtain ⟨grants, hgrants, hrel⟩ := LooseAcl.exists_ofPolicies hcs hnames
    obtain rfl := Except.ok.inj (hb.symm.trans hgrants)
    have hsame := AnyCompiled.Grows.map_name h
    obtain ⟨grants', hgrants', hrel'⟩ := LooseAcl.exists_ofPolicies hcs' (hsame ▸ hnames)
    have hfit := firstRefusal?_grows h hcs hcs' hrefusal
    refine ⟨.loose _, by rw [hfit, hgrants']; rfl, ?_⟩
    exact ((LooseAcl.GrantsGrow.of_reorders hrel).2.trans
      (LooseAcl.grantsGrow_foldl_addPolicy h)).trans (LooseAcl.GrantsGrow.of_reorders hrel').1
  · next hgrows =>
    simp only [hps] at hmerge
    obtain ⟨b, hb, rfl⟩ := Outcome.map_eq_ok_iff.1 hmerge
    obtain rfl := eq_map_of_allStrict? hps'
    obtain ⟨b', hb'⟩ := Acl.exists_merge fun p hp =>
      Value.text.inj (hcs' _ (List.mem_map_of_mem hp)).model
    refine ⟨.strict b', by simp only [hb']; rfl, ?_⟩
    have hrel := Acl.merge_grows hgrows (Outcome.mapError_eq_ok_iff.1 hb) hb'
    exact .of_rel (hrel.mapValues fun _ _ hg => hg.loosen)

/-- **Growing a model takes no grant away.**  If two models validate and the second one has grown
from the first one, then every policy that compiles against the first one compiles against the
second one, and what is authorized by the list that such policies are merged to against the first
one is authorized by the list that they are merged to against the second one.  Policies of texts are
merged in any case. -/
theorem isAuthorized_merge_grows {resources resources' : Registry} {m m' : ValidModel}
    (hm : (Model.draft resources).validate = .ok m)
    (hm' : (Model.draft resources').validate = .ok m') (h : resources.Grows resources') :
    (∀ (o : OfferedPolicy) c, o.compile m = .ok c → ∃ c', o.compile m' = .ok c') ∧
    ∀ (offered : List OfferedPolicy) compiled, offered.map (·.compile m) = compiled.map .ok →
      ∃ compiled', offered.map (·.compile m') = compiled'.map .ok ∧
        (∀ policies : List Policy, offered.map OfferedPolicy.strict? = policies.map some →
          ∃ a, merge compiled = .ok a) ∧
        ∀ a, merge compiled = .ok a → ∃ a', merge compiled' = .ok a' ∧
          ∀ resource item c, a.isAuthorized resource item c = .ok true →
            a'.isAuthorized resource item c = .ok true := by
  obtain ⟨hvalid, rfl⟩ := ValidModel.isValidated_of_validate hm
  obtain ⟨hvalid', rfl⟩ := ValidModel.isValidated_of_validate hm'
  refine ⟨fun o c hc => (o.exists_compile_grows hvalid hvalid' h hc).imp fun _ hc' => hc'.1,
    fun offered compiled hcompiled => ?_⟩
  have hfor : ∀ {m : ValidModel} {compiled : List AnyCompiled}, m.IsValidated →
      offered.map (·.compile m) = compiled.map .ok → ∀ c ∈ compiled, c.IsFor m := by
    intro m compiled hm hcompiled c hc
    have hmem : Except.ok c ∈ offered.map (·.compile m) := hcompiled ▸ List.mem_map_of_mem hc
    obtain ⟨o, -, ho⟩ := List.mem_map.1 hmem
    exact o.isFor_of_compile hm ho
  obtain ⟨compiled', hcompiled', hgrows⟩ :=
    OfferedPolicy.exists_map_compile_grows hvalid hvalid' h hcompiled
  refine ⟨compiled', hcompiled', fun policies hpolicies => ?_, fun a ha => ?_⟩
  · obtain ⟨cs, rfl, -⟩ := OfferedPolicy.strict_of_compile hpolicies hcompiled
    obtain ⟨a, ha⟩ := Acl.exists_merge fun p hp =>
      Value.text.inj (hfor hvalid hcompiled _ (List.mem_map_of_mem hp)).model
    exact ⟨.strict a, by rw [merge_strict, ha]; rfl⟩
  · obtain ⟨a', ha', hgrants⟩ :=
      exists_merge_grows hgrows (hfor hvalid hcompiled) (hfor hvalid' hcompiled') ha
    refine ⟨a', ha', fun resource item c hok => ?_⟩
    rw [isAuthorized_eq_loosen] at hok ⊢
    exact LooseAcl.isAuthorized_grows hgrants hok

/-- Books of which to read one is to annotate it as well, and to view one is a capability, too. -/
def annotated : Definition :=
  ⟨["list", "read", "annotate", "view"],
    OrderedMap.ofList [("read", ["read", "annotate"]), ("view", ["list", "read", "view"])]⟩

/-- Shelves, and books that are annotated. -/
def library : Registry := OrderedMap.ofList [("shelf", ⟨["list"], ∅⟩), ("book", annotated)]

/-- The model of books and shelves. -/
def libraryModel : ValidModel :=
  ⟨library,
    NameMap.ofList
      [("shelf", ∅),
        ("book", NameMap.ofList
          [("read", NameSet.ofNames ["read", "annotate"]),
            ("view", NameSet.ofNames ["list", "read", "annotate", "view"])])],
    library.fingerprint⟩

/-- The draft of the library is validated. -/
theorem validate_library : (Model.draft library).validate = .ok libraryModel := by
  have h : Registry.expansionsOf library.entries = .ok (NameMap.ofList
      [("shelf", ∅),
        ("book", NameMap.ofList
          [("read", NameSet.ofNames ["read", "annotate"]),
            ("view", NameSet.ofNames ["list", "read", "annotate", "view"])])]) := by
    cbv
  rw [Model.validate, h]
  rfl

/-- The library has all that the books have. -/
theorem grows_library : books.Grows library := by
  have hbooks : books.entries =
      [(("book" : Text), ⟨["list", "read"], OrderedMap.ofList [("view", ["list", "read"])]⟩)] := by
    decide +kernel
  intro resource d hfind
  have hentry := OrderedMap.mem_of_find?_eq_some hfind
  rw [hbooks, List.mem_singleton] at hentry
  obtain ⟨rfl, rfl⟩ := Prod.mk.inj hentry
  refine ⟨annotated, by decide +kernel, by decide, fun a targets hview => ?_⟩
  have halias := OrderedMap.mem_of_find?_eq_some hview
  have haliases : (OrderedMap.ofList [("view", ["list", "read"])] : OrderedMap Text (List Text)).entries =
      ([("view", ["list", "read"])] : List (Text × List Text)) := by decide +kernel
  rw [haliases, List.mem_singleton] at halias
  obtain ⟨rfl, rfl⟩ := Prod.mk.inj halias
  exact ⟨["list", "read", "view"], by decide +kernel, by decide⟩

/-- Readers still read every book, and now they may annotate it. -/
theorem isAuthorized_merge_library :
    ∃ compiled' a', [OfferedPolicy.ofPolicy readers].map (·.compile libraryModel) =
        compiled'.map .ok ∧
      merge compiled' = .ok a' ∧
      a'.isAuthorized (.text "book") (.text "lotr") (.text "read") = .ok true := by
  have hc : [OfferedPolicy.ofPolicy readers].map (·.compile booksModel) =
      [AnyCompiled.strict readersCompiled].map .ok := by
    simp [OfferedPolicy.compile_ofPolicy, compile_readers, Except.mapError, Except.map]
  obtain ⟨a, ha⟩ : ∃ a, Acl.merge [readersCompiled] = .ok a :=
    Acl.exists_merge fun _ hp => by rw [List.mem_singleton.1 hp]
  have hread : a.isAuthorized "book" "lotr" "read" = true := by
    refine (Acl.isAuthorized_merge_iff ha).2 ⟨readersCompiled, List.mem_singleton.2 rfl,
      ⟨"*", NameSet.ofNames ["list", "read"]⟩, ?_, rfl, by decide⟩
    decide +kernel
  have hmerge : merge [AnyCompiled.strict readersCompiled] = .ok (.strict a) := by
    rw [← List.map_singleton, merge_strict, ha]
    rfl
  obtain ⟨-, hgrows⟩ := isAuthorized_merge_grows validate_books validate_library grows_library
  obtain ⟨compiled', hcompiled', -, hkept⟩ := hgrows _ _ hc
  obtain ⟨a', ha', hstays⟩ := hkept _ hmerge
  exact ⟨compiled', a', hcompiled', ha', hstays _ _ _ (congrArg Except.ok hread)⟩

end AnyAcl

end Gatehouse
