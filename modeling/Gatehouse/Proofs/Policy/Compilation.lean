import Gatehouse.Proofs.Model.Closure
import Gatehouse.Proofs.Policy.Digest

/-!
# Compilation keeps every rule

A compiled policy holds, for each resource, one compiled rule for each rule about it, in the order of
the policy, and each compiled rule grants what its requested names stand for in the model
(`CompiledRule.IsOf`).  Where the rules do not all fit the model, the first one that does not is
reported.  Main statements: what compiling a list of rules comes to (`Rule.compileEach_outcome`),
rules that request the same names, in whatever order and however often, compile alike
(`Rule.SameRequest.compile_eq`), and compilation loses nothing, adds nothing and reports the first
fault (`OfferedPolicy.compile_faithful`).
-/

namespace Gatehouse

/-- A compiled rule is that of a rule: it has the filter of the rule, and it grants what the names
that the rule requests stand for in the model, together. -/
structure CompiledRule.IsOf (m : ValidModel) (r : Rule) (c : CompiledRule) : Prop where
  /-- The filter. -/
  filter : c.filter = r.filter
  /-- The capabilities. -/
  capabilities : ∀ cap, cap ∈ c.capabilities ↔ ∃ n ∈ r.capabilities, ∃ found,
    (Model.validated m).expandName r.resource n = .ok found ∧ cap ∈ found

/-- Where a resource is defined, a name is expanded by its definition. -/
theorem Model.expandName_of_find? {m : ValidModel} {resource : Text} {d : Definition}
    (hd : m.resources.find? resource = some d) (name : Text) :
    (Model.validated m).expandName resource name =
      d.expandName (m.expansionsFor resource) resource name := by
  have hdefined : (Model.validated m).definition resource = .ok d := by
    rw [definition, resources, hd]
  rw [expandName, hdefined]
  rfl

namespace Rule

variable {m : ValidModel} {policy : Text} {r r' : Rule} {rules rules' : List Rule}

/-- **A rule that fits is compiled to its compiled rule,** and of any other the fault is reported. -/
theorem compile_isOf (hm : m.IsValidated) (policy : Text) (r : Rule) :
    match r.compile m policy with
    | .ok c => r.Fits m.resources ∧ c.IsOf m r
    | .error f => r.HasFault m.resources policy f := by
  have houtcome := compile_outcome hm policy r
  rcases hcompile : r.compile m policy with f | c <;> rw [hcompile] at houtcome
  · exact houtcome
  obtain ⟨d, hd, hknown, hfilter, hcaps⟩ := houtcome
  refine ⟨⟨d, hd, hknown⟩, hfilter, fun cap => (hcaps cap).trans ?_⟩
  refine exists_congr fun n => and_congr_right fun hn => ?_
  have hspec := hm.expandName_spec hd n
  rw [← Model.expandName_of_find? hd] at hspec
  rcases hx : (Model.validated m).expandName r.resource n with f | found <;> rw [hx] at hspec
  · exact absurd (hknown n hn) (not_or.2 hspec.2)
  · simp [hspec.2 cap]

/-- **Rules are compiled one by one** if all of them fit; otherwise the first one that does not is
reported. -/
theorem compileEach_outcome (hm : m.IsValidated) (policy : Text) (rules : List Rule) :
    match compileEach m policy rules with
    | .ok l => (∀ r ∈ rules, r.Fits m.resources) ∧
        List.Forall₂ (fun r e => e.1 = r.resource ∧ e.2.IsOf m r) rules l
    | .error f => ∃ before r after, rules = before ++ r :: after ∧
        (∀ x ∈ before, x.Fits m.resources) ∧ r.HasFault m.resources policy f := by
  induction rules with
  | nil => exact ⟨nofun, .nil⟩
  | cons r rest ih =>
    have hfirst := compile_isOf hm policy r
    unfold compileEach
    rcases hr : r.compile m policy with f | c <;> rw [hr] at hfirst
    · exact ⟨[], r, rest, rfl, nofun, hfirst⟩
    · obtain ⟨hfits, hof⟩ := hfirst
      rcases hrest : compileEach m policy rest with f | more <;> rw [hrest] at ih
      · obtain ⟨before, r', after, rfl, hbefore, hfault⟩ := ih
        exact ⟨r :: before, r', after, rfl, List.forall_mem_cons.2 ⟨hfits, hbefore⟩, hfault⟩
      · exact ⟨List.forall_mem_cons.2 ⟨hfits, ih.1⟩, .cons ⟨rfl, hof⟩ ih.2⟩

/-- Two rules request the same names of the same resource under the same filter, in whatever order
and however often. -/
structure SameRequest (r r' : Rule) : Prop where
  /-- The resource. -/
  resource : r.resource = r'.resource
  /-- The filter. -/
  filter : r.filter = r'.filter
  /-- The requested names. -/
  capabilities : ∀ n, n ∈ r.capabilities ↔ n ∈ r'.capabilities

namespace SameRequest

/-- Requesting the same is mutual. -/
theorem symm (h : r.SameRequest r') : r'.SameRequest r :=
  ⟨h.resource.symm, h.filter.symm, fun n => (h.capabilities n).symm⟩

/-- A rule fits if one does that requests the same. -/
theorem fits {resources : Registry} (h : r.SameRequest r') (hr : r.Fits resources) :
    r'.Fits resources := by
  obtain ⟨d, hd, hall⟩ := hr
  exact ⟨d, h.resource ▸ hd, fun n hn => hall n ((h.capabilities n).2 hn)⟩

/-- A rule has the faults of one that requests the same. -/
theorem hasFault {resources : Registry} {f : Fault} (h : r.SameRequest r')
    (hr : r.HasFault resources policy f) : r'.HasFault resources policy f := by
  cases hr with
  | unknownResource hnone =>
    rw [h.resource] at hnone ⊢
    exact .unknownResource hnone
  | unknownName hd hn hunknown hleast =>
    rw [h.resource] at hd ⊢
    exact .unknownName hd ((h.capabilities _).1 hn) hunknown fun n' hn' =>
      hleast n' ((h.capabilities n').2 hn')

/-- **Rules that request the same names compile alike,** or have the same fault. -/
theorem compile_eq (hm : m.IsValidated) (h : r.SameRequest r') (policy : Text) :
    r.compile m policy = r'.compile m policy := by
  have hr := compile_isOf hm policy r
  have hr' := compile_isOf hm policy r'
  rcases hc : r.compile m policy with f | c <;> rcases hc' : r'.compile m policy with f' | c' <;>
    rw [hc] at hr <;> rw [hc'] at hr'
  · exact congrArg _ ((h.hasFault hr).unique hr')
  · exact absurd (h.symm.fits hr'.1) hr.not_fits
  · exact absurd (h.fits hr.1) hr'.not_fits
  · have hfilter : c.filter = c'.filter := by rw [hr.2.filter, hr'.2.filter, h.filter]
    have hcaps : c.capabilities = c'.capabilities := NameSet.ext fun cap => by
      rw [hr.2.capabilities, hr'.2.capabilities, h.resource]
      simp only [h.capabilities]
    cases c
    cases c'
    exact congrArg _ (congrArg₂ _ hfilter hcaps)

end SameRequest

/-- Rules that request the same, one by one, compile alike. -/
theorem compileEach_eq_of_sameRequest (hm : m.IsValidated)
    (h : List.Forall₂ SameRequest rules rules') (policy : Text) :
    compileEach m policy rules = compileEach m policy rules' := by
  induction h with
  | nil => rfl
  | cons hr _ ih => simp only [compileEach, hr.compile_eq hm, ih, hr.resource]

end Rule

namespace CompiledPolicy

/-- A compiled policy is that of a policy: it has its name, and for each resource the compiled rules
of the rules about it, in order. -/
structure IsOf (m : ValidModel) (p : Policy) (c : CompiledPolicy) : Prop where
  /-- The name. -/
  name : c.name = p.name
  /-- The fingerprint of the model. -/
  model : c.modelFingerprint = m.fingerprint
  /-- The resources. -/
  resources : ∀ resource, resource ∈ c.rules.names ↔ ∃ r ∈ p.rules, r.resource = resource
  /-- The rules of each resource. -/
  rules : ∀ resource, List.Forall₂ (CompiledRule.IsOf m)
    (p.rules.filter fun r => r.resource == resource) (c.rulesFor resource)

end CompiledPolicy

namespace Policy

variable {m : ValidModel} {p : Policy}

/-- Compiled rules that are grouped by resource are the compiled policy of their rules. -/
theorem isOf_group {l : List (Text × CompiledRule)}
    (h : List.Forall₂ (fun r e => e.1 = r.resource ∧ e.2.IsOf m r) p.rules l) :
    CompiledPolicy.IsOf m p ⟨p.name, m.fingerprint, NameMap.group l⟩ := by
  refine ⟨rfl, rfl, fun resource => ?_, fun resource => ?_⟩
  · rw [NameMap.mem_names_iff, NameMap.mem_group]
    generalize p.rules = rules at h
    induction h with
    | nil => simp
    | cons hr _ ih => simp only [List.exists_mem_cons_iff, hr.1, ih]
  · have hfilter := List.rel_filter (p := fun r : Rule => r.resource == resource)
      (q := fun e : Text × CompiledRule => e.1 == resource)
      (fun _ _ hr => by simp [hr.1]) h
    rw [CompiledPolicy.rulesFor, NameMap.find?_group, List.forall₂_map_right_iff]
    exact hfilter.imp fun _ _ hr => hr.2

/-- **A policy of which all rules fit is compiled to its compiled policy;** of any other the first
rule that does not fit is reported. -/
theorem compile_outcome (hm : m.IsValidated) (p : Policy) :
    match p.compile m with
    | .ok c => (∀ r ∈ p.rules, r.Fits m.resources) ∧ c.IsOf m p
    | .error f => ∃ before r after, p.rules = before ++ r :: after ∧
        (∀ x ∈ before, x.Fits m.resources) ∧ r.HasFault m.resources p.name f := by
  have heach := Rule.compileEach_outcome hm p.name p.rules
  unfold compile
  rcases hl : Rule.compileEach m p.name p.rules with f | l <;> rw [hl] at heach
  · exact heach
  · exact ⟨heach.1, isOf_group heach.2⟩

end Policy

namespace OfferedPolicy

/-- **Compilation loses nothing, adds nothing and keeps the order, and reports the first fault.**  A
policy that consists of texts, checked or of the host's own kind,
* compiles against a validated model exactly if all of its rules fit the model;
* compiles to its compiled policy: for each resource that its rules are about, and for no other, one
  compiled rule for each of them, in order, with its filter and the expansions of its names;
* fails otherwise with the fault of the first rule that does not fit, under the policy's name;
* and compiles as any policy of its name whose rules make the same requests, or fails as it does. -/
theorem compile_faithful {resources : Registry} {m : ValidModel}
    (hm : (Model.draft resources).validate = .ok m) {o : OfferedPolicy} {p : Policy}
    (ho : o.ConsistsOf p) :
    ((∃ c, o.compile m = .ok c) ↔ ∀ r ∈ p.rules, r.Fits resources) ∧
    (∀ c, o.compile m = .ok c → ∃ c', c = .strict c' ∧ c'.IsOf m p) ∧
    (∀ problem, o.compile m = .error problem → ∃ before r after f,
      p.rules = before ++ r :: after ∧ (∀ x ∈ before, x.Fits resources) ∧
        r.HasFault resources p.name f ∧ problem = .fault f) ∧
    ∀ o' p', OfferedPolicy.ConsistsOf o' p' → p'.name = p.name →
      List.Forall₂ Rule.SameRequest p.rules p'.rules → o'.compile m = o.compile m := by
  obtain ⟨hvalid, rfl⟩ := ValidModel.isValidated_of_validate hm
  have hcompile := compile_of_strict (m := m) ho.strict?_eq
  have hsame : ∀ o' p', OfferedPolicy.ConsistsOf o' p' → p'.name = p.name →
      List.Forall₂ Rule.SameRequest p.rules p'.rules → o'.compile m = o.compile m := by
    intro o' p' ho' hname hrules
    rw [compile_of_strict ho'.strict?_eq, hcompile, Policy.compile, Policy.compile, hname,
      Rule.compileEach_eq_of_sameRequest hvalid hrules]
  have houtcome := p.compile_outcome hvalid
  rcases hp : p.compile m with f | c' <;> rw [hp] at houtcome hcompile
  · obtain ⟨before, r, after, hsplit, hbefore, hfault⟩ := houtcome
    have hr : r ∈ p.rules := hsplit ▸ List.mem_append_right _ List.mem_cons_self
    rw [hcompile] at hsame ⊢
    refine ⟨iff_of_false ?_ fun h => hfault.not_fits (h r hr), ?_, fun problem h => ?_, hsame⟩
    · rintro ⟨c, h⟩
      cases h
    · intro c h
      cases h
    · exact ⟨before, r, after, f, hsplit, hbefore, hfault, (Except.error.inj h).symm⟩
  · rw [hcompile] at hsame ⊢
    refine ⟨iff_of_true ⟨_, rfl⟩ houtcome.1, fun c h => ?_, ?_, hsame⟩
    · exact ⟨c', (Except.ok.inj h).symm, houtcome.2⟩
    · intro problem h
      cases h

/-- The policy of writers, who are asked for the same thing more than once and for nothing on one
book. -/
def writers : Policy :=
  ⟨"writers", [⟨"book", "*", ["write", "read", "write"]⟩, ⟨"book", "lotr", []⟩], .null⟩

/-- A policy with several faults, of which the least name in the second rule is the first. -/
def careless : Policy :=
  ⟨"careless", [⟨"book", "*", ["list"]⟩, ⟨"book", "lotr", ["mend", "read", "burn", "mend"]⟩,
    ⟨"film", "*", ["see"]⟩], .null⟩

/-- Writers are compiled rule by rule, and of the careless policy the first fault is reported. -/
theorem compile_writers_and_careless : (∃ c, (ofPolicy writers).compile ValidModel.shelvesModel =
      .ok (.strict c) ∧ c.IsOf ValidModel.shelvesModel writers) ∧
    ∃ before r after, careless.rules = before ++ r :: after ∧
      (∀ x ∈ before, x.Fits ValidModel.shelves) ∧ r.HasFault ValidModel.shelves careless.name
        (.unknownCapability "book" "burn" "careless") := by
  have hmodel := ValidModel.validate_shelves
  constructor
  · have hfits : ∀ r ∈ writers.rules, r.Fits ValidModel.shelves := by
      have hd : ValidModel.shelves.find? "book" = some ⟨["read", "write", "list"],
          OrderedMap.ofList [("read", ["read", "list"]), ("write", ["write", "read"])]⟩ := by
        decide +kernel
      refine List.forall_mem_cons.2 ⟨⟨_, hd, by decide⟩, List.forall_mem_singleton.2 ⟨_, hd, nofun⟩⟩
    obtain ⟨hiff, hok, -⟩ := compile_faithful hmodel (consistsOf_ofPolicy writers)
    obtain ⟨_, hc⟩ := hiff.2 hfits
    obtain ⟨c, rfl, hof⟩ := hok _ hc
    exact ⟨c, hc, hof⟩
  · have hcareless : careless.compile ValidModel.shelvesModel =
        .error (.unknownCapability "book" "burn" "careless") := by
      unfold ValidModel.shelvesModel
      -- the digest of the definitions need not be worked out
      generalize ValidModel.shelves.fingerprint = f
      cbv
    obtain ⟨-, -, herror, -⟩ := compile_faithful hmodel (consistsOf_ofPolicy careless)
    obtain ⟨before, r, after, f, hsplit, hbefore, hfault, hf⟩ := herror _
      (by rw [compile_ofPolicy, hcareless]; rfl)
    obtain rfl := Problem.fault.inj hf
    exact ⟨before, r, after, hsplit, hbefore, hfault⟩

end OfferedPolicy

end Gatehouse
