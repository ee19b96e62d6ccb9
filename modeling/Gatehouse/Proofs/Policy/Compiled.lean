import Gatehouse.Policy.Compiled
import Gatehouse.Policy.Offered
import Gatehouse.Proofs.Model.Validated
import Mathlib.Data.List.Forall2

/-!
# What a policy compiles to

A rule asks for a capability if one of its requested names means it (`Rule.AsksFor`), and it is
compiled to the capabilities that it asks for; a rule that does not fit its model (`Rule.Fits`) has
one fault (`Rule.HasFault`), which is reported (`Rule.compile_outcome`).  The compiled rules of a
resource are the rules about it, in order.  Main statement: the compiled rules of a resource that
are about an instance and hold a capability are there exactly for the rules of the policy that ask
for it on that instance (`Policy.rulesFor_iff`).
-/

namespace Gatehouse

namespace Rule

/-- A rule is about an instance if its filter is the one of every instance or the instance. -/
def Covers (r : Rule) (item : Text) : Prop := r.filter = wildcard ∨ r.filter = item

/-- A rule asks for a capability if it requests a name that means it. -/
def AsksFor (r : Rule) (resources : Registry) (c : Text) : Prop :=
  ∃ d, resources.find? r.resource = some d ∧ c ∈ d.capabilities ∧
    ∃ n ∈ r.capabilities, d.Means n c

/-- A rule fits a registry that defines its resource, with every name that the rule requests as a
capability or an alias. -/
def Fits (r : Rule) (resources : Registry) : Prop :=
  ∃ d, resources.find? r.resource = some d ∧
    ∀ n ∈ r.capabilities, n ∈ d.aliases.keys ∨ n ∈ d.capabilities

/-- What is wrong with a rule of a policy: its resource, or else the least of the requested names that
are neither capabilities nor aliases. -/
inductive HasFault (resources : Registry) (policy : Text) (r : Rule) : Fault → Prop where
  /-- The resource is not defined. -/
  | unknownResource (h : resources.find? r.resource = none) :
      HasFault resources policy r (.unknownResource r.resource policy)
  /-- A requested name is unknown, and no unknown one is smaller. -/
  | unknownName {d : Definition} {n : Text} (hd : resources.find? r.resource = some d)
      (hn : n ∈ r.capabilities) (hunknown : ¬ (n ∈ d.aliases.keys ∨ n ∈ d.capabilities))
      (hleast : ∀ n' ∈ r.capabilities, ¬ (n' ∈ d.aliases.keys ∨ n' ∈ d.capabilities) → n ≤ n') :
      HasFault resources policy r (.unknownCapability r.resource n policy)

variable {m : ValidModel} {policy : Text} {r : Rule} {rules : List Rule}

/-- A rule with a fault does not fit. -/
theorem HasFault.not_fits {resources : Registry} {f : Fault} (h : r.HasFault resources policy f) :
    ¬ r.Fits resources := by
  rintro ⟨d, hd, hall⟩
  cases h with
  | unknownResource hnone => cases hd.symm.trans hnone
  | unknownName hd' hn hunknown hleast =>
    obtain rfl := Option.some.inj (hd.symm.trans hd')
    exact hunknown (hall _ hn)

/-- A rule has one fault. -/
theorem HasFault.unique {resources : Registry} {f f' : Fault} (h : r.HasFault resources policy f)
    (h' : r.HasFault resources policy f') : f = f' := by
  cases h with
  | unknownResource hnone =>
    cases h' with
    | unknownResource => rfl
    | unknownName hd' => cases hd'.symm.trans hnone
  | unknownName hd hn hunknown hleast =>
    cases h' with
    | unknownResource hnone => cases hd.symm.trans hnone
    | unknownName hd' hn' hunknown' hleast' =>
      obtain rfl := Option.some.inj (hd.symm.trans hd')
      rw [Text.le_antisymm (hleast _ hn' hunknown') (hleast' _ hn hunknown)]

/-- **A rule that fits is compiled to what its requested names mean,** under its filter; and of any
other rule the fault is reported. -/
theorem compile_outcome (hm : m.IsValidated) (policy : Text) (r : Rule) :
    match r.compile m policy with
    | .ok c => ∃ d, m.resources.find? r.resource = some d ∧
        (∀ n ∈ r.capabilities, n ∈ d.aliases.keys ∨ n ∈ d.capabilities) ∧ c.filter = r.filter ∧
        ∀ cap, cap ∈ c.capabilities ↔ ∃ n ∈ r.capabilities, d.Means n cap
    | .error f => r.HasFault m.resources policy f := by
  unfold compile
  rcases hd : m.resources.find? r.resource with _ | d
  · exact .unknownResource hd
  have hspec := hm.expandNames_spec hd (sortNames r.capabilities) ∅
  dsimp only
  rw [← ValidModel.expansionsFor]
  rcases hx : d.expandNames (m.expansionsFor r.resource) r.resource (sortNames r.capabilities) ∅
    with f | found <;> rw [hx] at hspec
  · obtain ⟨known, n, rest, hsplit, hknown, hkeys, hcap, rfl⟩ := hspec
    have hmem : n ∈ r.capabilities :=
      mem_sortNames.1 (hsplit ▸ List.mem_append_right _ List.mem_cons_self)
    refine .unknownName hd hmem (not_or.2 ⟨hkeys, hcap⟩) fun n' hn' hunknown => ?_
    -- the names stand in order, those before the reported one are known
    have hsorted := pairwise_sortNames r.capabilities
    rw [hsplit] at hsorted
    have hn' := mem_sortNames.2 hn'
    rw [hsplit] at hn'
    rcases List.mem_append.1 hn' with hn' | hn'
    · exact absurd (hknown n' hn') hunknown
    · rcases List.mem_cons.1 hn' with rfl | hn'
      · exact Text.le_refl _
      · exact List.rel_of_pairwise_cons (List.pairwise_append.1 hsorted).2.1 hn'
  · obtain ⟨hall, hmem⟩ := hspec
    refine ⟨d, rfl, fun n hn => hall n (mem_sortNames.2 hn), rfl, fun cap => ?_⟩
    rw [hmem, or_iff_right (NameSet.not_mem_empty cap)]
    simp only [mem_sortNames]

/-- **A rule is compiled to the capabilities that it asks for,** under its filter. -/
theorem compile_spec (hm : m.IsValidated) {c : CompiledRule} (h : r.compile m policy = .ok c) :
    c.filter = r.filter ∧ ∀ cap, cap ∈ c.capabilities ↔ r.AsksFor m.resources cap := by
  have hspec := compile_outcome hm policy r
  rw [h] at hspec
  obtain ⟨d, hd, -, hfilter, hcaps⟩ := hspec
  refine ⟨hfilter, fun cap => (hcaps cap).trans ⟨?_, ?_⟩⟩
  · rintro ⟨n, hn, hmeans⟩
    exact ⟨d, hd, hm.mem_capabilities_of_means hd hmeans, n, hn, hmeans⟩
  · rintro ⟨d', hd', -, n, hn, hmeans⟩
    obtain rfl := Option.some.inj (hd.symm.trans hd')
    exact ⟨n, hn, hmeans⟩

/-- Rules are compiled one by one, each with its resource. -/
theorem compileEach_eq_ok_iff {l : List (Text × CompiledRule)} :
    compileEach m policy rules = .ok l ↔
      List.Forall₂ (fun r e => e.1 = r.resource ∧ r.compile m policy = .ok e.2) rules l := by
  induction rules generalizing l with
  | nil => simp [compileEach, eq_comm]
  | cons r rest ih =>
    unfold compileEach
    rw [List.forall₂_cons_left_iff]
    rcases hr : r.compile m policy with f | c
    · simp
    · rcases hrest : compileEach m policy rest with f | more
      · simp only [reduceCtorEq, Except.ok.injEq, false_iff, not_exists, not_and]
        rintro e l' - hl' -
        rw [← ih, hrest] at hl'
        cases hl'
      · simp only [Except.ok.injEq]
        constructor
        · rintro rfl
          exact ⟨(r.resource, c), more, ⟨rfl, rfl⟩, ih.1 hrest, rfl⟩
        · rintro ⟨⟨resource, c'⟩, more', ⟨rfl, rfl⟩, hmore', rfl⟩
          rw [← ih, hrest] at hmore'
          rw [Except.ok.inj hmore']

end Rule

namespace Policy

variable {m : ValidModel} {p : Policy} {c : CompiledPolicy}

/-- A policy compiles to its compiled rules, grouped by resource. -/
theorem compile_eq_ok_iff :
    p.compile m = .ok c ↔ ∃ l,
      List.Forall₂ (fun r e => e.1 = r.resource ∧ r.compile m p.name = .ok e.2) p.rules l ∧
        c = ⟨p.name, m.fingerprint, NameMap.group l⟩ := by
  unfold compile
  simp only [← Rule.compileEach_eq_ok_iff]
  rcases Rule.compileEach m p.name p.rules with f | l <;> simp [eq_comm]

/-- What a policy is compiled to has the fingerprint of the model. -/
theorem modelFingerprint_of_compile (h : p.compile m = .ok c) :
    c.modelFingerprint = m.fingerprint := by
  obtain ⟨l, -, rfl⟩ := compile_eq_ok_iff.1 h
  rfl

/-- **A compiled rule grants a capability on an instance exactly if a rule of the policy about that
instance asks for it.** -/
theorem rulesFor_iff (hm : m.IsValidated) (h : p.compile m = .ok c) (resource item cap : Text) :
    (∃ r ∈ c.rulesFor resource, r.isAbout item = true ∧ cap ∈ r.capabilities) ↔
      ∃ r ∈ p.rules, r.resource = resource ∧ r.Covers item ∧ r.AsksFor m.resources cap := by
  obtain ⟨l, hl, rfl⟩ := compile_eq_ok_iff.1 h
  have hrules : ∀ r, r ∈ CompiledPolicy.rulesFor ⟨p.name, m.fingerprint, NameMap.group l⟩ resource ↔
      (resource, r) ∈ l := by
    intro r
    simp only [CompiledPolicy.rulesFor, NameMap.find?_group, List.mem_map, List.mem_filter,
      beq_iff_eq, Prod.exists]
    constructor
    · rintro ⟨_, _, ⟨hmem, rfl⟩, rfl⟩
      exact hmem
    · exact fun hmem => ⟨resource, r, ⟨hmem, rfl⟩, rfl⟩
  have habout : ∀ {r : Rule} {e : CompiledRule}, e.filter = r.filter →
      (e.isAbout item = true ↔ r.Covers item) := by
    intro r e hfilter
    simp [CompiledRule.isAbout, CompiledRule.isWildcard, Rule.Covers, hfilter]
  simp only [hrules]
  clear h hrules
  generalize p.rules = rules at hl ⊢
  induction hl with
  | nil => simp
  | @cons r e rules rest hre _ ih =>
    obtain ⟨hresource, hcompile⟩ := hre
    obtain ⟨hfilter, hcaps⟩ := Rule.compile_spec hm hcompile
    obtain ⟨first, e⟩ := e
    simp only at hresource hfilter hcaps
    subst hresource
    simp only [List.mem_cons, or_and_right, exists_or, Prod.mk.injEq] at ih ⊢
    refine or_congr ?_ ih
    constructor
    · rintro ⟨_, ⟨rfl, rfl⟩, hab, hcap⟩
      exact ⟨r, rfl, rfl, (habout hfilter).1 hab, (hcaps cap).1 hcap⟩
    · rintro ⟨_, rfl, rfl, hcov, hasks⟩
      exact ⟨e, ⟨rfl, rfl⟩, (habout hfilter).2 hcov, (hcaps cap).2 hasks⟩

end Policy

namespace OfferedPolicy

variable {m : ValidModel} {o : OfferedPolicy} {p : Policy}

/-- A policy of texts is compiled as such. -/
theorem compile_of_strict (h : o.strict? = some p) :
    o.compile m = ((p.compile m).mapError .fault).map .strict := by
  rw [compile, h]

/-- A policy of texts is compiled to what its texts are compiled to. -/
theorem compile_strict_eq_ok_iff (h : o.strict? = some p) {c : AnyCompiled} :
    o.compile m = .ok c ↔ ∃ c', p.compile m = .ok c' ∧ c = .strict c' := by
  rw [compile_of_strict h]
  rcases p.compile m with f | c' <;> simp [Except.mapError, Except.map, eq_comm]

/-- A policy of texts is kept under its own version. -/
theorem cacheVersion_of_strict (h : o.strict? = some p) : o.cacheVersion = .ok p.cacheVersion := by
  have hversion : p.version = o.version := by
    unfold strict? at h
    split at h
    · obtain ⟨rules, -, rfl⟩ := Option.map_eq_some_iff.1 h
      rfl
    · cases h
  unfold cacheVersion Policy.cacheVersion
  rw [hversion]
  split
  · rw [digest, h]
    rfl
  · rfl

end OfferedPolicy

end Gatehouse
