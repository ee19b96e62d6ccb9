import Gatehouse.Proofs.Model.Validated
import Mathlib

/-!
# Expansion is a closure

A set of requested names is expanded to the capabilities that its names mean.  A capability means
itself at least, as an alias of its name must list it, and what is meant by something meant is meant
already (`Definition.Means.trans`): a capability that is also an alias is only ever brought by that
alias.  Main statement: expanding stays within the capabilities of the resource, keeps those that
are asked for, grows with what is asked for, and done twice does no more than done once
(`ValidModel.expand_closure`).
-/

namespace Gatehouse

open Relation (ReflTransGen)

namespace Definition

variable {d : Definition} {name c e : Text}

/-- Capabilities mean themselves, also where an alias has their name. -/
theorem HidesNone.means_self (h : d.HidesNone) (hc : c ∈ d.capabilities) : d.Means c c := by
  by_cases halias : c ∈ d.aliases.keys
  · obtain ⟨targets, hfind⟩ := exists_find?_of_mem_keys halias
    have hbrings : d.Brings c c := ⟨targets, hfind, h c targets hfind hc, .inr rfl⟩
    exact .inr ⟨c, .refl, hbrings⟩
  · exact .inl ⟨hc, halias, rfl⟩

/-- What stands for something is an alias. -/
theorem StandsFor.mem_keys (h : d.StandsFor name c) : name ∈ d.aliases.keys := by
  rcases standsFor_iff.1 h with ⟨_, hfind, -⟩ | ⟨_, ⟨_, hfind, -⟩, -⟩ <;>
    exact mem_keys_of_find? hfind

/-- An alias that is brought is reached. -/
theorem StandsFor.reaches (h : d.StandsFor name c) (hc : c ∈ d.aliases.keys) :
    ReflTransGen d.Leads name c := by
  obtain ⟨b, hreach, _, _, _, ⟨-, hleaf⟩ | rfl⟩ := h
  · exact absurd hc hleaf
  · exact hreach

/-- **What a meaning means is meant already.** -/
theorem Means.trans (h : d.Means name c) (h' : d.Means c e) : d.Means name e := by
  rcases h with ⟨-, -, rfl⟩ | h
  · exact h'
  · rcases h' with ⟨-, -, rfl⟩ | h'
    · exact .inr h
    · -- `c` is an alias, and so it was brought by itself
      obtain ⟨b, hreach, hbrings⟩ := h'
      have hc : c ∈ d.aliases.keys := StandsFor.mem_keys ⟨b, hreach, hbrings⟩
      exact .inr ⟨b, (h.reaches hc).trans hreach, hbrings⟩

end Definition

namespace ValidModel

variable {m : ValidModel} {resource : Text} {d : Definition}

/-- **Known names are expanded to what they mean.** -/
theorem IsValidated.exists_expand (hm : m.IsValidated) (hd : m.resources.find? resource = some d)
    {names : List Text} (hnames : ∀ n ∈ names, n ∈ d.aliases.keys ∨ n ∈ d.capabilities) :
    ∃ found, m.expand resource names = .ok found ∧ ∀ c, c ∈ found ↔ ∃ n ∈ names, d.Means n c := by
  have hexpand : m.expand resource names =
      d.expandNames (m.expansionsFor resource) resource names ∅ := by
    have hdefinition : (Model.validated m).definition resource = .ok d := by
      rw [Model.definition, Model.resources, hd]
    rw [expand, hdefinition]
    rfl
  have hspec := hm.expandNames_spec hd names ∅
  rw [← hexpand] at hspec
  rcases hresult : m.expand resource names with f | found
  · rw [hresult] at hspec
    obtain ⟨known, n, rest, rfl, -, hkeys, hcap, -⟩ := hspec
    exact absurd (hnames n (by simp)) (not_or.2 ⟨hkeys, hcap⟩)
  · rw [hresult] at hspec
    refine ⟨found, rfl, fun c => ?_⟩
    rw [hspec.2 c, or_iff_right (NameSet.not_mem_empty c)]

/-- **Expansion is a closure.**  In a validated model, any names of a resource can be expanded, to
capabilities of that resource only; expanding what was found, listed in any way, finds the same; a
capability that is asked for is found, also where an alias has its name; and who asks for more names
finds no less. -/
theorem expand_closure {resources : Registry} (hm : (Model.draft resources).validate = .ok m)
    (hd : resources.find? resource = some d) :
    (∀ names : List Text, (∀ n ∈ names, n ∈ d.aliases.keys ∨ n ∈ d.capabilities) →
      ∃ found, m.expand resource names = .ok found ∧ (∀ c ∈ found, c ∈ d.capabilities) ∧
        (∀ again : List Text, (∀ c, c ∈ again ↔ c ∈ found) →
          m.expand resource again = .ok found) ∧
        ∀ fewer ⊆ names, ∃ less, m.expand resource fewer = .ok less ∧ ∀ c ∈ less, c ∈ found) ∧
    ∀ c ∈ d.capabilities, ∃ found, m.expand resource [c] = .ok found ∧ c ∈ found := by
  obtain ⟨hvalid, rfl⟩ := isValidated_of_validate hm
  have hsound : d.Sound := (hvalid.spec hd).1
  constructor
  · intro names hnames
    obtain ⟨found, hfound, hmem⟩ := hvalid.exists_expand hd hnames
    have hcaps : ∀ c ∈ found, c ∈ d.capabilities := by
      intro c hc
      obtain ⟨n, -, hmeans⟩ := (hmem c).1 hc
      exact hvalid.mem_capabilities_of_means hd hmeans
    refine ⟨found, hfound, hcaps, fun again hagain => ?_, fun fewer hfewer => ?_⟩
    · obtain ⟨found', hfound', hmem'⟩ :=
        hvalid.exists_expand hd fun n hn => .inr (hcaps n ((hagain n).1 hn))
      have hsame : found' = found := by
        refine NameSet.ext fun c => ⟨fun hc => ?_, fun hc => ?_⟩
        · obtain ⟨b, hb, hmeans'⟩ := (hmem' c).1 hc
          obtain ⟨n, hn, hmeans⟩ := (hmem b).1 ((hagain b).1 hb)
          exact (hmem c).2 ⟨n, hn, hmeans.trans hmeans'⟩
        · exact (hmem' c).2 ⟨c, (hagain c).2 hc, hsound.hides.means_self (hcaps c hc)⟩
      rw [hfound', hsame]
    · obtain ⟨less, hless, hmem'⟩ := hvalid.exists_expand hd fun n hn => hnames n (hfewer hn)
      refine ⟨less, hless, fun c hc => ?_⟩
      obtain ⟨n, hn, hmeans⟩ := (hmem' c).1 hc
      exact (hmem c).2 ⟨n, hfewer hn, hmeans⟩
  · intro c hc
    obtain ⟨found, hfound, hmem⟩ :=
      hvalid.exists_expand hd fun n hn => .inr (List.mem_singleton.1 hn ▸ hc)
    exact ⟨found, hfound, (hmem c).2 ⟨c, List.mem_singleton_self c, hsound.hides.means_self hc⟩⟩

/-- Books, where readers may list and writers may read. -/
def shelves : Registry :=
  OrderedMap.ofList
    [("book", ⟨["read", "write", "list"],
      OrderedMap.ofList [("read", ["read", "list"]), ("write", ["write", "read"])]⟩)]

/-- What the aliases of such books stand for. -/
def shelvesExpansions : NameMap (NameMap NameSet) :=
  NameMap.ofList
    [("book", NameMap.ofList
      [("read", NameSet.ofNames ["read", "list"]),
        ("write", NameSet.ofNames ["write", "read", "list"])])]

/-- The model of such books. -/
def shelvesModel : ValidModel := ⟨shelves, shelvesExpansions, shelves.fingerprint⟩

/-- The draft of the shelves is validated. -/
theorem validate_shelves : (Model.draft shelves).validate = .ok shelvesModel := by
  have hexpansions : Registry.expansionsOf shelves.entries = .ok shelvesExpansions := by cbv
  rw [Model.validate, hexpansions]
  rfl

/-- Who may write may read and list, and gains nothing by asking for that. -/
theorem expand_shelves :
    shelvesModel.expand "book" ["write"] = .ok (NameSet.ofNames ["write", "read", "list"]) ∧
      shelvesModel.expand "book" ["list", "write", "read"] =
        shelvesModel.expand "book" ["write"] := by
  have hd : shelves.find? "book" = some ⟨["read", "write", "list"],
      OrderedMap.ofList [("read", ["read", "list"]), ("write", ["write", "read"])]⟩ := by
    decide +kernel
  have hwrite : shelvesModel.expand "book" ["write"] =
      .ok (NameSet.ofNames ["write", "read", "list"]) := by
    unfold shelvesModel
    -- the digest of the definitions need not be worked out
    generalize shelves.fingerprint = f
    cbv
  have hknown : ∀ n ∈ (["write"] : List Text), n ∈ (["read", "write", "list"] : List Text) := by
    decide
  obtain ⟨found, hfound, -, hagain, -⟩ :=
    (expand_closure validate_shelves hd).1 ["write"] fun n hn => .inr (hknown n hn)
  obtain rfl := Except.ok.inj (hwrite.symm.trans hfound)
  refine ⟨hwrite, (hagain ["list", "write", "read"] fun c => ?_).trans hfound.symm⟩
  simp only [NameSet.ofNames, List.foldl_cons, List.foldl_nil, NameSet.mem_add,
    NameSet.not_mem_empty, List.mem_cons, List.not_mem_nil]
  grind

end ValidModel

end Gatehouse
