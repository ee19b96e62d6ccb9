import Gatehouse.Acl.Combine
import Gatehouse.Proofs.Collections.NameSet

/-!
# What a merged list grants

Merging adds rule by rule to what is granted, and nothing that is granted is ever taken back.  Main
statements: what single rules bring holds of merged grants exactly if one of their rules brings it
(`Acl.foldl_addPolicy_iff`), so a merged list grants a capability on an instance exactly if a rule
of one of the compiled policies does (`Acl.isAuthorized_merge_iff`); and policies of one model can
always be merged (`Acl.exists_merge`).
-/

namespace Gatehouse

namespace ResourceGrants

variable {g : ResourceGrants} {r : CompiledRule} {item c : Text}

/-- Allowed is what is granted everywhere or on that very instance. -/
theorem allows_iff : g.allows item c = true ↔ c ∈ g.everywhere ∨ c ∈ g.exactly item := by
  simp only [allows, Bool.or_eq_true, NameMap.contains_iff_mem]

/-- Empty grants allow nothing. -/
theorem not_allows_empty (item c : Text) : empty.allows item c ≠ true := by
  rw [ne_eq, allows_iff]
  rintro (h | h) <;> exact NameSet.not_mem_empty c h

/-- A rule for every instance adds to what is granted everywhere. -/
theorem mem_everywhere_addRule : c ∈ (g.addRule r).everywhere ↔
    c ∈ g.everywhere ∨ r.filter = wildcard ∧ c ∈ r.capabilities := by
  unfold addRule
  split
  · next hw => simp [NameSet.mem_union, beq_iff_eq.1 hw]
  · next hw => simp [show r.filter ≠ wildcard from fun h => hw (beq_iff_eq.2 h)]

/-- A rule for one instance adds to what is granted on it. -/
theorem mem_exactly_addRule : c ∈ (g.addRule r).exactly item ↔
    c ∈ g.exactly item ∨ item ≠ wildcard ∧ r.filter = item ∧ c ∈ r.capabilities := by
  unfold addRule
  split
  · next hw =>
    have hnot : ¬ (item ≠ wildcard ∧ r.filter = item) := fun h => h.1 (h.2 ▸ beq_iff_eq.1 hw)
    simp only [exactly, ← and_assoc, hnot, false_and, or_false]
  · next hw =>
    have hne : r.filter ≠ wildcard := fun h => hw (beq_iff_eq.2 h)
    simp only [exactly, NameMap.find?_insert]
    by_cases hitem : item = r.filter
    · subst hitem
      simp [NameSet.mem_union, hne]
    · simp [hitem, Ne.symm hitem]

/-- A rule that is added grants what it holds on the instances that it is about. -/
theorem allows_addRule : (g.addRule r).allows item c = true ↔
    g.allows item c = true ∨ r.isAbout item = true ∧ c ∈ r.capabilities := by
  rw [allows_iff, allows_iff, mem_everywhere_addRule, mem_exactly_addRule, CompiledRule.isAbout,
    CompiledRule.isWildcard, Bool.or_eq_true, beq_iff_eq, beq_iff_eq]
  by_cases hitem : item = wildcard <;> grind

/-! ### Adding rule by rule

What holds of the grants with a rule added if and only if it held before or the rule brings it, is
followed through all rules that are added. -/

variable {P : ResourceGrants → Prop} {Q : CompiledRule → Prop}

/-- What rules may add one by one is added by some rule of a sequence. -/
theorem foldl_addRule_iff (hadd : ∀ g r, P (g.addRule r) ↔ P g ∨ Q r) (rules : List CompiledRule) :
    P (rules.foldl addRule g) ↔ P g ∨ ∃ r ∈ rules, Q r := by
  induction rules generalizing g with
  | nil => simp
  | cons r rest ih =>
    rw [List.foldl_cons, ih, hadd]
    simp [or_assoc]

end ResourceGrants

namespace Acl

variable {grants : NameMap ResourceGrants} {resource item c : Text}

/-- A resource without grants is like one with no grant. -/
theorem isAuthorized_eq (a : Acl) (resource item c : Text) :
    a.isAuthorized resource item c =
      ((a.grants.find? resource).getD .empty).allows item c := by
  unfold isAuthorized grantsOn
  cases a.grants.find? resource with
  | none => exact (Bool.eq_false_iff.2 (ResourceGrants.not_allows_empty item c)).symm
  | some g => rfl

section Adding

variable {P : ResourceGrants → Prop} {Q : CompiledRule → Prop}

/-- The rules for one resource add to that resource alone. -/
theorem addRules_iff (hadd : ∀ g r, P (g.addRule r) ↔ P g ∨ Q r)
    (e : Text × List CompiledRule) :
    P (((addRules grants e).find? resource).getD .empty) ↔
      P ((grants.find? resource).getD .empty) ∨ e.1 = resource ∧ ∃ r ∈ e.2, Q r := by
  rw [addRules, NameMap.find?_insert]
  by_cases h : resource = e.1
  · subst h
    simp [ResourceGrants.foldl_addRule_iff hadd]
  · simp [h, Ne.symm h]

/-- The rules of a sequence of resources add what some rule of the resource adds. -/
theorem foldl_addRules_iff (hadd : ∀ g r, P (g.addRule r) ↔ P g ∨ Q r)
    (entries : List (Text × List CompiledRule)) :
    P (((entries.foldl addRules grants).find? resource).getD .empty) ↔
      P ((grants.find? resource).getD .empty) ∨
        ∃ e ∈ entries, e.1 = resource ∧ ∃ r ∈ e.2, Q r := by
  induction entries generalizing grants with
  | nil => simp
  | cons e rest ih =>
    rw [List.foldl_cons, ih, addRules_iff hadd]
    simp only [List.mem_cons, or_and_right, exists_or, exists_eq_left, or_assoc]

/-- A policy that is added brings what its rules do. -/
theorem addPolicy_iff (hadd : ∀ g r, P (g.addRule r) ↔ P g ∨ Q r) (p : CompiledPolicy) :
    P (((addPolicy grants p).find? resource).getD .empty) ↔
      P ((grants.find? resource).getD .empty) ∨ ∃ r ∈ p.rulesFor resource, Q r := by
  rw [addPolicy, foldl_addRules_iff hadd]
  refine or_congr_right ?_
  unfold CompiledPolicy.rulesFor
  constructor
  · rintro ⟨⟨key, rules⟩, he, rfl, h⟩
    rw [NameMap.find?_eq_some_iff.2 he]
    exact h
  · intro h
    rcases hfind : p.rules.find? resource with _ | rules
    · simp [hfind] at h
    · rw [hfind] at h
      exact ⟨(resource, rules), NameMap.find?_eq_some_iff.1 hfind, rfl, h⟩

/-- Policies add what some rule of some policy adds. -/
theorem foldl_addPolicy_iff (hadd : ∀ g r, P (g.addRule r) ↔ P g ∨ Q r)
    (policies : List CompiledPolicy) :
    P (((policies.foldl addPolicy grants).find? resource).getD .empty) ↔
      P ((grants.find? resource).getD .empty) ∨
        ∃ p ∈ policies, ∃ r ∈ p.rulesFor resource, Q r := by
  induction policies generalizing grants with
  | nil => simp
  | cons p rest ih =>
    rw [List.foldl_cons, ih, addPolicy_iff hadd]
    simp only [List.mem_cons, or_and_right, exists_or, exists_eq_left, or_assoc]

end Adding

/-- Merging adds policy by policy to no grants. -/
theorem grants_of_merge {policies : List CompiledPolicy} {a : Acl} (h : merge policies = .ok a) :
    a.grants = policies.foldl addPolicy ∅ := by
  unfold merge at h
  split at h
  · cases h
  · exact (congrArg Acl.grants (Except.ok.inj h)).symm

/-- **A merged list grants what a rule of its policies grants, and nothing else.** -/
theorem isAuthorized_merge_iff {policies : List CompiledPolicy} {a : Acl}
    (h : merge policies = .ok a) :
    a.isAuthorized resource item c = true ↔
      ∃ p ∈ policies, ∃ r ∈ p.rulesFor resource,
        r.isAbout item = true ∧ c ∈ r.capabilities := by
  rw [isAuthorized_eq, grants_of_merge h]
  refine (foldl_addPolicy_iff (P := fun g => g.allows item c = true)
    (fun _ _ => ResourceGrants.allows_addRule) policies).trans ?_
  simp [ResourceGrants.not_allows_empty]

/-- **Policies of one model can be merged.** -/
theorem exists_merge {policies : List CompiledPolicy} {fingerprint : Text}
    (h : ∀ p ∈ policies, p.modelFingerprint = fingerprint) : ∃ a, merge policies = .ok a := by
  have hmodel : ∃ f, commonModel policies = .ok f := by
    cases policies with
    | nil => exact ⟨none, rfl⟩
    | cons p rest =>
      have hnone : (rest.find? fun q => q.modelFingerprint != p.modelFingerprint) = none := by
        rw [List.find?_eq_none]
        intro q hq
        simp [h q (List.mem_cons_of_mem _ hq), h p List.mem_cons_self]
      exact ⟨some p.modelFingerprint, by rw [commonModel, hnone]⟩
  obtain ⟨f, hf⟩ := hmodel
  exact ⟨_, by rw [merge, hf]⟩

end Acl

end Gatehouse
