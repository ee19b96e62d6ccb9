import Gatehouse.Proofs.Acl.Union

/-!
# Every question gets the same answer

A list is asked in four ways: for a truth value, for a fault, for an explanation, and for everything
that is granted on an instance.  Each of them reads the grants by itself.  For a list that was put
together from compiled policies, by merging and combining, they all come to the same, and the filters
that an explanation names are those of rules that the policies hold.

Main statements: what a list holds at a resource is what the rules of its policies bring, however it
was put together (`Acl.BuiltFrom.grants_eq`); rules for every instance are never filed under an
instance (`Acl.BuiltFrom.exactly_wildcard`); and all questions agree (`Acl.questions_agree`).
-/

namespace Gatehouse

namespace ResourceGrants

variable {g : ResourceGrants} {item c filter : Text}

/-- The capabilities on an instance are the ones that are allowed on it. -/
theorem mem_capabilitiesOn : c ∈ g.capabilitiesOn item ↔ g.allows item c = true := by
  rw [allows_iff, capabilitiesOn, NameSet.mem_union]

/-- The filters that match are those under which the capability is found. -/
theorem mem_matchedFilters : filter ∈ g.matchedFilters item c ↔
    filter = wildcard ∧ c ∈ g.everywhere ∨ filter = item ∧ c ∈ g.exactly item := by
  simp only [matchedFilters, List.mem_append, List.mem_ite_nil_right, List.mem_singleton,
    NameMap.contains_iff_mem]
  exact or_congr and_comm and_comm

/-- No filter matched exactly if nothing is allowed. -/
theorem matchedFilters_eq_nil_iff : g.matchedFilters item c = [] ↔ ¬ g.allows item c = true := by
  simp only [matchedFilters, allows, List.append_eq_nil_iff, ite_eq_right_iff, List.cons_ne_nil,
    imp_false, Bool.or_eq_true, not_or]

/-- Filters match once if nothing is filed under the instance of the name of all of them. -/
theorem nodup_matchedFilters (h : c ∈ g.exactly item → item ≠ wildcard) :
    (g.matchedFilters item c).Nodup := by
  unfold matchedFilters
  split <;> split
  · next _ hc => simpa using (h hc).symm
  all_goals simp

/-- The filter for every instance comes first. -/
theorem head?_matchedFilters (h : c ∈ g.exactly item → item ≠ wildcard)
    (hmem : wildcard ∈ g.matchedFilters item c) :
    (g.matchedFilters item c).head? = some wildcard := by
  have heverywhere : c ∈ g.everywhere := by
    rcases mem_matchedFilters.1 hmem with ⟨-, hc⟩ | ⟨rfl, hc⟩
    · exact hc
    · exact absurd rfl (h hc)
  rw [matchedFilters, if_pos (NameMap.contains_iff_mem.2 heverywhere)]
  rfl

/-- A rule is filed under an instance only if it is not for every one. -/
theorem find?_wildcard_addRule (g : ResourceGrants) (r : CompiledRule) :
    (g.addRule r).exact.find? wildcard = g.exact.find? wildcard := by
  unfold addRule
  split
  · rfl
  · next hw =>
    have hne : wildcard ≠ r.filter := fun h => hw (beq_iff_eq.2 h.symm)
    rw [NameMap.find?_insert, if_neg hne]

end ResourceGrants

namespace Acl

variable {policies : List CompiledPolicy} {a : Acl} {resource item c filter : Text}

/-- What is granted on a resource, also if it is nothing. -/
def holdings (a : Acl) (resource : Text) : ResourceGrants :=
  (a.grants.find? resource).getD .empty

/-- A list authorizes what its grants for the resource allow. -/
theorem isAuthorized_iff :
    a.isAuthorized resource item c = true ↔ (a.holdings resource).allows item c = true := by
  rw [isAuthorized_eq, holdings]

/-- The capabilities that a list names are the ones that it authorizes. -/
theorem mem_capabilities_iff :
    c ∈ a.capabilities resource item ↔ a.isAuthorized resource item c = true := by
  unfold capabilities isAuthorized
  split
  · simp [NameSet.not_mem_empty]
  · exact ResourceGrants.mem_capabilitiesOn

/-- A decision answers what was asked. -/
theorem decide_asked (a : Acl) (resource item c : Text) :
    (a.decide resource item c).resource = resource ∧ (a.decide resource item c).item = item ∧
      (a.decide resource item c).capability = c := by
  unfold decide
  split
  · exact ⟨rfl, rfl, rfl⟩
  · split <;> exact ⟨rfl, rfl, rfl⟩

/-- A decision names the filters that match. -/
theorem matchedFilters_decide : (a.decide resource item c).matchedFilters =
    (a.holdings resource).matchedFilters item c := by
  unfold decide holdings grantsOn
  rcases a.grants.find? resource with _ | g
  · rfl
  · dsimp only [Option.getD_some]
    split
    · next hnil => exact hnil.symm
    · rfl

/-- A decision allows exactly what the list authorizes. -/
theorem allowed_decide : (a.decide resource item c).allowed = a.isAuthorized resource item c := by
  unfold decide isAuthorized
  split
  · rfl
  · split
    · next hnil =>
      exact (Bool.eq_false_iff.2 (ResourceGrants.matchedFilters_eq_nil_iff.1 hnil)).symm
    · next hne =>
      exact (not_not.1 fun h => hne (ResourceGrants.matchedFilters_eq_nil_iff.2 h)).symm

/-! ### Where grants come from -/

/-- A list is put together from these policies, by merging some of them and combining the lists. -/
inductive BuiltFrom : List CompiledPolicy → Acl → Prop where
  /-- Policies were merged. -/
  | merge {policies : List CompiledPolicy} {a : Acl} (h : merge policies = .ok a) :
      BuiltFrom policies a
  /-- Two lists were combined. -/
  | union {xs ys : List CompiledPolicy} {a b c : Acl} (ha : BuiltFrom xs a) (hb : BuiltFrom ys b)
      (h : a.union b = .ok c) : BuiltFrom (xs ++ ys) c

namespace BuiltFrom

/-- **However a list was put together, it holds what its policies bring one after the other.** -/
theorem grants_eq (h : BuiltFrom policies a) : a.grants = policies.foldl addPolicy ∅ := by
  induction h with
  | merge h => exact grants_of_merge h
  | @union xs ys a b c _ _ h iha ihb =>
    obtain ⟨-, rfl⟩ := (union_spec a b).eq_ok_iff.1 h
    calc unite a.grants b.grants
        = unite (xs.foldl addPolicy ∅) (ys.foldl addPolicy ∅) := by rw [iha, ihb]
      _ = (xs ++ ys).foldl addPolicy ∅ := by rw [List.foldl_append, ← foldl_addPolicy_eq]

/-- What single rules bring holds of a list if a rule of its policies brings it. -/
theorem holdings_iff (h : BuiltFrom policies a) {P : ResourceGrants → Prop}
    {Q : CompiledRule → Prop} (hadd : ∀ g r, P (g.addRule r) ↔ P g ∨ Q r) (hempty : ¬ P .empty) :
    P (a.holdings resource) ↔ ∃ p ∈ policies, ∃ r ∈ p.rulesFor resource, Q r := by
  rw [holdings, h.grants_eq]
  exact (foldl_addPolicy_iff hadd policies).trans (or_iff_right hempty)

/-- What is granted on every instance comes from rules for every instance. -/
theorem mem_everywhere_iff (h : BuiltFrom policies a) : c ∈ (a.holdings resource).everywhere ↔
    ∃ p ∈ policies, ∃ r ∈ p.rulesFor resource, r.filter = wildcard ∧ c ∈ r.capabilities :=
  h.holdings_iff (P := fun g => c ∈ g.everywhere)
    (fun _ _ => ResourceGrants.mem_everywhere_addRule) (NameSet.not_mem_empty c)

/-- What is granted on one instance comes from rules for it. -/
theorem mem_exactly_iff (h : BuiltFrom policies a) : c ∈ (a.holdings resource).exactly item ↔
    ∃ p ∈ policies, ∃ r ∈ p.rulesFor resource,
      item ≠ wildcard ∧ r.filter = item ∧ c ∈ r.capabilities :=
  h.holdings_iff (P := fun g => c ∈ g.exactly item)
    (fun _ _ => ResourceGrants.mem_exactly_addRule) (NameSet.not_mem_empty c)

/-- **Nothing is filed under an instance with the name of all of them,** not even an empty set. -/
theorem exactly_wildcard (h : BuiltFrom policies a) :
    (a.holdings resource).exact.find? wildcard = none := by
  by_contra hsome
  obtain ⟨_, -, _, -, hfalse⟩ := (h.holdings_iff (P := fun g => g.exact.find? wildcard ≠ none)
    (Q := fun _ => False) (fun g r => by rw [ResourceGrants.find?_wildcard_addRule, or_false])
    (fun hne => hne rfl)).1 hsome
  exact hfalse

/-- Nothing is kept for the single instance that is written like the wildcard. -/
theorem ne_wildcard_of_mem_exactly (h : BuiltFrom policies a)
    (hc : c ∈ (a.holdings resource).exactly item) : item ≠ wildcard := by
  obtain ⟨_, -, _, -, hne, -⟩ := h.mem_exactly_iff.1 hc
  exact hne

/-- **What is granted on the name of all instances is granted on each of them.** -/
theorem isAuthorized_wildcard_iff (h : BuiltFrom policies a) :
    a.isAuthorized resource wildcard c = true ↔ ∀ item, a.isAuthorized resource item c = true := by
  refine ⟨fun hall item => ?_, fun hall => hall wildcard⟩
  rw [isAuthorized_iff, ResourceGrants.allows_iff] at hall ⊢
  exact .inl (hall.resolve_right fun hc => h.ne_wildcard_of_mem_exactly hc rfl)

end BuiltFrom

/-- A decision is explained by rules of these policies: the filters it names are each named once, the
one of every instance first, and they are the filters about the instance under which a rule grants
the capability. -/
structure ExplainedBy (policies : List CompiledPolicy) (d : Decision) : Prop where
  /-- No filter is named twice. -/
  nodup : d.matchedFilters.Nodup
  /-- The filter of every instance comes first. -/
  first : wildcard ∈ d.matchedFilters → d.matchedFilters.head? = some wildcard
  /-- The filters are those of rules that grant the capability. -/
  mem_iff : ∀ filter, filter ∈ d.matchedFilters ↔ (filter = wildcard ∨ filter = d.item) ∧
    ∃ p ∈ policies, ∃ r ∈ p.rulesFor d.resource, r.filter = filter ∧ d.capability ∈ r.capabilities

/-- Every decision of a list that was built from policies is explained by their rules. -/
theorem BuiltFrom.explainedBy (h : BuiltFrom policies a) (resource item c : Text) :
    ExplainedBy policies (a.decide resource item c) := by
  obtain ⟨hresource, hitem, hc⟩ := a.decide_asked resource item c
  refine ⟨?_, ?_, fun filter => ?_⟩
  · rw [matchedFilters_decide]
    exact ResourceGrants.nodup_matchedFilters h.ne_wildcard_of_mem_exactly
  · rw [matchedFilters_decide]
    exact ResourceGrants.head?_matchedFilters h.ne_wildcard_of_mem_exactly
  · rw [hresource, hitem, hc, matchedFilters_decide, ResourceGrants.mem_matchedFilters,
      h.mem_everywhere_iff, h.mem_exactly_iff]
    constructor
    · rintro (⟨rfl, p, hp, r, hr, hgrants⟩ | ⟨rfl, p, hp, r, hr, -, hgrants⟩)
      · exact ⟨.inl rfl, p, hp, r, hr, hgrants⟩
      · exact ⟨.inr rfl, p, hp, r, hr, hgrants⟩
    · rintro ⟨hfilter, p, hp, r, hr, hgrants⟩
      by_cases hw : filter = wildcard
      · subst hw
        exact .inl ⟨rfl, p, hp, r, hr, hgrants⟩
      · obtain rfl := hfilter.resolve_left hw
        exact .inr ⟨rfl, p, hp, r, hr, hw, hgrants⟩

/-- **All questions agree, and the explanation is true.**  For a list that was put together from
policies, a check as a fault passes exactly if the check as a truth value does, and otherwise its
fault repeats the question; the decision and the set of everything granted say the same; the decision
is explained by rules of the policies; nothing is filed under an instance with the name of all of
them; and what is granted on that name is what is granted on each instance. -/
theorem questions_agree (h : BuiltFrom policies a) (resource item c : Text) :
    (a.checkAuthorized resource item c = .ok () ↔ a.isAuthorized resource item c = true) ∧
    (∀ f, a.checkAuthorized resource item c = .error f → f = .notAuthorized resource item c) ∧
    (a.decide resource item c).allowed = a.isAuthorized resource item c ∧
    (c ∈ a.capabilities resource item ↔ a.isAuthorized resource item c = true) ∧
    ((a.decide resource item c).resource = resource ∧ (a.decide resource item c).item = item ∧
      (a.decide resource item c).capability = c) ∧
    ExplainedBy policies (a.decide resource item c) ∧
    (∀ g, a.grantsOn resource = some g → g.exact.find? wildcard = none) ∧
    (a.isAuthorized resource wildcard c = true ↔
      ∀ other, a.isAuthorized resource other c = true) := by
  refine ⟨?_, fun f hf => ?_, allowed_decide, mem_capabilities_iff, a.decide_asked resource item c,
    h.explainedBy resource item c, fun g hg => ?_, h.isAuthorized_wildcard_iff⟩
  · unfold checkAuthorized
    split
    · next hyes => exact iff_of_true rfl hyes
    · next hno => exact iff_of_false nofun hno
  · unfold checkAuthorized at hf
    split at hf
    · cases hf
    · exact (Except.error.inj hf).symm
  · have hnone : (a.holdings resource).exact.find? wildcard = none := h.exactly_wildcard
    rwa [holdings, ← grantsOn, hg] at hnone

/-- The policy of curators, who read all books, and read and mend one. -/
def curators : CompiledPolicy :=
  ⟨"curators", "m", NameMap.ofList [("book", [⟨"lotr", NameSet.ofNames ["mend", "read"]⟩,
    ⟨wildcard, NameSet.ofNames ["read"]⟩, ⟨"lotr", ∅⟩])]⟩

/-- Guests and curators, merged and combined again with the guests, may read the book for two
reasons, and no other book is mended. -/
theorem questions_agree_on_a_book : ∃ a b u, merge [guests, curators] = .ok a ∧
    merge [guests] = .ok b ∧ a.union b = .ok u ∧
    ExplainedBy [guests, curators, guests] (u.decide "book" "lotr" "read") ∧
    (u.decide "book" "lotr" "read").matchedFilters = [wildcard, "lotr"] ∧
    (u.isAuthorized "book" wildcard "mend" = true ↔
      ∀ other, u.isAuthorized "book" other "mend" = true) ∧
    u.checkAuthorized "book" wildcard "mend" = .error (.notAuthorized "book" wildcard "mend") := by
  have hunion : (ofPolicies [guests, curators]).union (ofPolicies [guests]) =
      .ok ((ofPolicies [guests, curators]).join (ofPolicies [guests])) := rfl
  have hfirst : BuiltFrom [guests, curators] (ofPolicies [guests, curators]) := .merge rfl
  have hbuilt : BuiltFrom ([guests, curators] ++ [guests])
      ((ofPolicies [guests, curators]).join (ofPolicies [guests])) :=
    hfirst.union (.merge rfl) hunion
  obtain ⟨-, -, -, -, -, hexplained, -⟩ := questions_agree hbuilt "book" "lotr" "read"
  obtain ⟨-, -, -, -, -, -, -, hall⟩ := questions_agree hbuilt "book" wildcard "mend"
  exact ⟨_, _, _, rfl, rfl, hunion, hexplained, by decide +kernel, hall, by decide +kernel⟩

end Acl

end Gatehouse
