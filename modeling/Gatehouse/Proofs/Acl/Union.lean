import Gatehouse.Proofs.Acl.Merged
import Gatehouse.Proofs.Collections.Combining
import Mathlib.Data.Multiset.Fold

/-!
# Lists are combined in any order

Grants of a resource form a semilattice under `ResourceGrants.union`, and so do grants by resource;
merging policies adds the grants of each of them.  So it makes no difference which policies are
merged first and which lists are combined later.  A combination is refused exactly if two policies
in it are of different models, whatever their order.

Main statements: merging two lists of policies one behind the other is combining what they are
merged to (`Acl.merge_append`); what is merged depends on which policies there are and not on their
order; and combining lists is associative, commutative and idempotent, with the list of no policies
as identity (`Acl.combination_laws`).
-/

namespace Gatehouse

namespace NameMap

/-- What is written into a union may be written into its second part, joined with the first. -/
theorem insert_unionWith {α : Type} {f : α → α → α} {a b : NameMap α} {name : Text} {v w : α}
    (h : (a.find? name).merge f (some v) = some w) :
    (unionWith f a b).insert name w = unionWith f a (b.insert name v) := by
  refine ext_find? fun other => ?_
  simp only [find?_insert, find?_unionWith_eq_merge]
  by_cases hother : other = name
  · rw [if_pos hother, if_pos hother, hother, h]
  · rw [if_neg hother, if_neg hother]

end NameMap

namespace ResourceGrants

variable {g h : ResourceGrants} {item c : Text}

/-- Grants may be united in any grouping. -/
theorem union_assoc (g h k : ResourceGrants) : (g.union h).union k = g.union (h.union k) :=
  congrArg₂ mk (NameSet.union_assoc _ _ _) (NameMap.unionWith_assoc _ _ _ _)

/-- Grants may be united in any order. -/
theorem union_comm (g h : ResourceGrants) : g.union h = h.union g :=
  congrArg₂ mk (NameSet.union_comm _ _) (NameMap.unionWith_comm _ _ _)

/-- Grants united with themselves are the same. -/
theorem union_self (g : ResourceGrants) : g.union g = g :=
  congrArg₂ mk (NameSet.union_self _) (NameMap.unionWith_self _ _)

/-- Empty grants add nothing. -/
theorem union_empty (g : ResourceGrants) : g.union empty = g :=
  congrArg₂ mk (NameSet.union_empty _) (NameMap.unionWith_empty _ _)

instance : Std.Associative union := ⟨union_assoc⟩

instance : Std.Commutative union := ⟨union_comm⟩

instance : Std.IdempotentOp union := ⟨union_self⟩

/-- What is granted on an instance together is what both grant on it. -/
theorem exactly_union : (g.union h).exactly item = g.exactly item ∪ h.exactly item := by
  simp only [exactly, union, NameMap.find?_unionWith_eq_merge]
  rcases g.exact.find? item with _ | s <;> rcases h.exact.find? item with _ | t
  · exact (NameSet.empty_union _).symm
  · exact (NameSet.empty_union _).symm
  · exact (NameSet.union_empty _).symm
  · rfl

/-- **Two grants together grant what one of them grants.** -/
theorem allows_union :
    (g.union h).allows item c = true ↔ g.allows item c = true ∨ h.allows item c = true := by
  have heverywhere : (g.union h).everywhere = g.everywhere ∪ h.everywhere := rfl
  simp only [allows_iff, exactly_union, heverywhere, NameSet.mem_union]
  exact or_or_or_comm

/-- A rule may be added to the second of two grants. -/
theorem addRule_union (g h : ResourceGrants) (r : CompiledRule) :
    (g.union h).addRule r = g.union (h.addRule r) := by
  unfold addRule
  split
  · exact congrArg₂ mk (NameSet.union_assoc _ _ _) rfl
  · refine congrArg₂ mk rfl (NameMap.insert_unionWith ?_)
    rw [exactly_union, NameSet.union_assoc]
    change (g.exact.find? r.filter).merge _ _ =
      some ((g.exact.find? r.filter).getD ∅ ∪ (h.exactly r.filter ∪ r.capabilities))
    rcases g.exact.find? r.filter with _ | s
    · exact congrArg some (NameSet.empty_union _).symm
    · rfl

end ResourceGrants

namespace Acl

/-! ### Adding policies -/

/-- Everything that either of two maps grants. -/
abbrev unite (a b : NameMap ResourceGrants) : NameMap ResourceGrants :=
  a.unionWith ResourceGrants.union b

/-- The rules of a resource may be added to the second of two maps. -/
theorem addRules_unite (a b : NameMap ResourceGrants) (e : Text × List CompiledRule) :
    addRules (unite a b) e = unite a (addRules b e) := by
  have hfold : ∀ g h : ResourceGrants,
      e.2.foldl ResourceGrants.addRule (g.union h) = g.union (e.2.foldl ResourceGrants.addRule h) :=
    fun g h => List.foldl_hom g.union fun h r => g.addRule_union h r
  refine NameMap.insert_unionWith ?_
  rw [NameMap.find?_unionWith_eq_merge]
  rcases a.find? e.1 with _ | g <;> rcases b.find? e.1 with _ | h
  · rfl
  · rfl
  · change some (g.union (e.2.foldl _ .empty)) = some (e.2.foldl _ g)
    rw [← hfold, ResourceGrants.union_empty]
  · exact congrArg some (hfold g h).symm

/-- A policy may be added to the second of two maps. -/
theorem addPolicy_unite (a b : NameMap ResourceGrants) (p : CompiledPolicy) :
    addPolicy (unite a b) p = unite a (addPolicy b p) :=
  List.foldl_hom (unite a) fun b e => addRules_unite a b e

/-- Policies may be added to the second of two maps. -/
theorem foldl_addPolicy_unite (a b : NameMap ResourceGrants) (policies : List CompiledPolicy) :
    policies.foldl addPolicy (unite a b) = unite a (policies.foldl addPolicy b) :=
  List.foldl_hom (unite a) fun b p => addPolicy_unite a b p

/-- What is granted together with some policies is united with what they grant. -/
theorem foldl_addPolicy_eq (a : NameMap ResourceGrants) (policies : List CompiledPolicy) :
    policies.foldl addPolicy a = unite a (policies.foldl addPolicy ∅) := by
  rw [← foldl_addPolicy_unite, unite, NameMap.unionWith_empty]

/-- **What policies grant depends on which policies there are,** not on their order and not on how
often each of them occurs. -/
theorem foldl_addPolicy_congr {xs ys : List CompiledPolicy} (h : ∀ p, p ∈ xs ↔ p ∈ ys) :
    xs.foldl addPolicy ∅ = ys.foldl addPolicy ∅ := by
  have hfold : ∀ l : List CompiledPolicy, l.foldl addPolicy ∅ =
      (Multiset.ofList (l.map (addPolicy ∅))).dedup.fold unite ∅ := by
    intro l
    have hadd : addPolicy = fun a p => unite a (addPolicy ∅ p) := by
      funext a p
      exact foldl_addPolicy_eq a [p]
    rw [Multiset.fold_dedup_idem, Multiset.coe_fold_l, List.foldl_map]
    exact congrArg (fun f => l.foldl f ∅) hadd
  have hdedup : (Multiset.ofList (xs.map (addPolicy ∅))).dedup =
      (Multiset.ofList (ys.map (addPolicy ∅))).dedup := by
    refine Multiset.dedup_ext.2 fun g => ?_
    simp only [Multiset.mem_coe, List.mem_map, h]
  rw [hfold, hfold, hdedup]

/-! ### Lists of one model -/

/-- A combination is refused because not all of it is of one model. -/
def Refused (combination : Except Fault Acl) : Prop :=
  ∃ name, combination = .error (.modelMismatch name)

/-- A combination gives a list under some condition, and is refused if the condition is not met. -/
def GivesIf (condition : Prop) (a : Acl) (combination : Except Fault Acl) : Prop :=
  condition ∧ combination = .ok a ∨ ¬ condition ∧ Refused combination

/-- Two combinations come to the same: both give lists, which are related, or both are refused. -/
inductive Alike (R : Acl → Acl → Prop) : Except Fault Acl → Except Fault Acl → Prop where
  /-- Both give lists. -/
  | made {a b : Acl} (h : R a b) : Alike R (.ok a) (.ok b)
  /-- Both are refused. -/
  | refused {x y : Except Fault Acl} (hx : Refused x) (hy : Refused y) : Alike R x y

namespace GivesIf

variable {P Q : Prop} {a b c : Acl} {x y : Except Fault Acl}

/-- It is refused exactly if the condition fails. -/
theorem refused_iff (h : GivesIf P a x) : Refused x ↔ ¬ P := by
  rcases h with ⟨hp, rfl⟩ | ⟨hp, hrefused⟩
  · exact iff_of_false nofun (not_not_intro hp)
  · exact iff_of_true hrefused hp

/-- It gives an answer exactly under the condition, and always the same one. -/
theorem eq_ok_iff (h : GivesIf P a x) : x = .ok c ↔ P ∧ a = c := by
  rcases h with ⟨hp, rfl⟩ | ⟨hp, name, rfl⟩
  · simp [hp]
  · simp [hp]

/-- What is given first may go into a second combination. -/
theorem bind (h : GivesIf P a x) {f : Acl → Except Fault Acl} (hf : P → GivesIf Q b (f a)) :
    GivesIf (P ∧ Q) b (x >>= f) := by
  rcases h with ⟨hp, rfl⟩ | ⟨hp, name, rfl⟩
  · rcases hf hp with ⟨hq, hok⟩ | ⟨hq, hrefused⟩
    · exact .inl ⟨⟨hp, hq⟩, hok⟩
    · exact .inr ⟨fun hpq => hq hpq.2, hrefused⟩
  · exact .inr ⟨fun hpq => hp hpq.1, name, rfl⟩

/-- Two that depend on conditions which agree have alike outcomes, if their answers are related. -/
theorem alike (hx : GivesIf P a x) (hy : GivesIf Q b y) (hiff : P ↔ Q) {R : Acl → Acl → Prop}
    (h : P → R a b) : Alike R x y := by
  by_cases hp : P
  · rw [hx.eq_ok_iff.2 ⟨hp, rfl⟩, hy.eq_ok_iff.2 ⟨hiff.1 hp, rfl⟩]
    exact .made (h hp)
  · exact .refused (hx.refused_iff.2 hp) (hy.refused_iff.2 fun hq => hp (hiff.2 hq))

end GivesIf

/-- All policies were compiled against one model. -/
def OneModel (policies : List CompiledPolicy) : Prop :=
  ∀ p ∈ policies, ∀ q ∈ policies, p.modelFingerprint = q.modelFingerprint

/-- The list that policies of one model are merged to. -/
def ofPolicies (policies : List CompiledPolicy) : Acl :=
  ⟨policies.foldl addPolicy ∅, OrderedMap.distinct (policies.map (·.name)),
    policies.head?.map (·.modelFingerprint)⟩

/-- Two lists are of one model, as far as both have one. -/
def Fits (a b : Acl) : Prop := ∀ m ∈ a.modelFingerprint, ∀ n ∈ b.modelFingerprint, m = n

/-- What two lists that fit are combined to. -/
def join (a b : Acl) : Acl :=
  ⟨unite a.grants b.grants, OrderedMap.distinct (a.policies ++ b.policies),
    a.modelFingerprint.or b.modelFingerprint⟩

/-- **Policies are merged if they are of one model,** and refused if they are not. -/
theorem merge_spec (policies : List CompiledPolicy) :
    GivesIf (OneModel policies) (ofPolicies policies) (merge policies) := by
  rcases policies with _ | ⟨p, rest⟩
  · exact .inl ⟨nofun, rfl⟩
  rcases hother : rest.find? fun q => q.modelFingerprint != p.modelFingerprint with _ | q
  · have hsame : ∀ q ∈ p :: rest, q.modelFingerprint = p.modelFingerprint :=
      List.forall_mem_cons.2 ⟨rfl, by simpa using hother⟩
    refine .inl ⟨fun q hq q' hq' => (hsame q hq).trans (hsame q' hq').symm, ?_⟩
    simp only [merge, commonModel, hother]
    rfl
  · have hne : q.modelFingerprint ≠ p.modelFingerprint := by simpa using List.find?_some hother
    have hq : q ∈ p :: rest := List.mem_cons_of_mem _ (List.mem_of_find?_eq_some hother)
    refine .inr ⟨fun h => hne (h q hq p List.mem_cons_self), q.name, ?_⟩
    simp only [merge, commonModel, hother]

/-- **Two lists are combined if they fit,** and refused if they do not. -/
theorem union_spec (a b : Acl) : GivesIf (a.Fits b) (a.join b) (a.union b) := by
  unfold union unionModel GivesIf Fits join Refused
  rcases a.modelFingerprint with _ | m <;> rcases b.modelFingerprint with _ | n
  · simp
  · simp
  · simp
  · by_cases h : m = n <;> simp [h]

variable {a b c : Acl} {xs ys : List CompiledPolicy}

/-! ### Merging and combining -/

/-- Policies are of one model if those of each part are, and the parts fit. -/
theorem oneModel_append : OneModel (xs ++ ys) ↔
    OneModel xs ∧ OneModel ys ∧ (ofPolicies xs).Fits (ofPolicies ys) := by
  constructor
  · intro h
    refine ⟨fun p hp q hq => h p (List.mem_append_left _ hp) q (List.mem_append_left _ hq),
      fun p hp q hq => h p (List.mem_append_right _ hp) q (List.mem_append_right _ hq), ?_⟩
    rintro m hm n hn
    obtain ⟨p, hp, rfl⟩ := Option.map_eq_some_iff.1 hm
    obtain ⟨q, hq, rfl⟩ := Option.map_eq_some_iff.1 hn
    exact h p (List.mem_append_left _ (List.mem_of_mem_head? hp)) q
      (List.mem_append_right _ (List.mem_of_mem_head? hq))
  · rintro ⟨hxs, hys, hfits⟩
    -- a policy on either side is of the model of the first one on that side
    have hcross : ∀ p ∈ xs, ∀ q ∈ ys, p.modelFingerprint = q.modelFingerprint := by
      intro p hp q hq
      obtain ⟨p', xs', rfl⟩ := List.exists_cons_of_ne_nil (List.ne_nil_of_mem hp)
      obtain ⟨q', ys', rfl⟩ := List.exists_cons_of_ne_nil (List.ne_nil_of_mem hq)
      calc p.modelFingerprint = p'.modelFingerprint := hxs p hp p' List.mem_cons_self
        _ = q'.modelFingerprint := hfits _ rfl _ rfl
        _ = q.modelFingerprint := hys q' List.mem_cons_self q hq
    rintro p hp q hq
    rcases List.mem_append.1 hp with hp | hp <;> rcases List.mem_append.1 hq with hq | hq
    · exact hxs p hp q hq
    · exact hcross p hp q hq
    · exact (hcross q hq p hp).symm
    · exact hys p hp q hq

/-- What policies are merged to is put together from what they are merged to in two parts. -/
theorem ofPolicies_append (xs ys : List CompiledPolicy) :
    ofPolicies (xs ++ ys) = (ofPolicies xs).join (ofPolicies ys) := by
  have hgrants : (xs ++ ys).foldl addPolicy ∅ =
      unite (xs.foldl addPolicy ∅) (ys.foldl addPolicy ∅) := by
    rw [List.foldl_append, foldl_addPolicy_eq]
  have hnames : OrderedMap.distinct ((xs ++ ys).map (·.name)) = OrderedMap.distinct
      (OrderedMap.distinct (xs.map (·.name)) ++ OrderedMap.distinct (ys.map (·.name))) := by
    rw [OrderedMap.distinct_distinct_append, OrderedMap.distinct_append_distinct, List.map_append]
  have hmodel : (xs ++ ys).head?.map (·.modelFingerprint) =
      (xs.head?.map (·.modelFingerprint)).or (ys.head?.map (·.modelFingerprint)) := by
    cases xs <;> rfl
  rw [ofPolicies, hgrants, hnames, hmodel]
  rfl

/-- A merged list has no model exactly if nothing was merged. -/
theorem modelFingerprint_ofPolicies_eq_none_iff :
    (ofPolicies xs).modelFingerprint = none ↔ xs = [] := by
  cases xs <;> simp [ofPolicies]

/-- **Merging two lists of policies one behind the other is combining what they are merged to.**  It
is refused if one of the two is, or the combination; and otherwise it gives the same grants, the same
names of policies in the same order, each of them once, and the same model, which is missing only if
there are no policies at all. -/
theorem merge_append (xs ys : List CompiledPolicy) :
    (Refused (merge (xs ++ ys)) ↔ Refused (merge xs) ∨ Refused (merge ys) ∨
      ∃ a b, merge xs = .ok a ∧ merge ys = .ok b ∧ Refused (a.union b)) ∧
    (Refused (merge (xs ++ ys)) ∨ ∃ a b c, merge xs = .ok a ∧ merge ys = .ok b ∧
      a.union b = .ok c ∧ merge (xs ++ ys) = .ok c ∧ c.policies.Nodup ∧
      (c.modelFingerprint = none ↔ xs ++ ys = [])) := by
  have hrefused : ∀ l, Refused (merge l) ↔ ¬ OneModel l := fun l => (merge_spec l).refused_iff
  have hunion : (∃ a b, merge xs = .ok a ∧ merge ys = .ok b ∧ Refused (a.union b)) ↔
      OneModel xs ∧ OneModel ys ∧ ¬ (ofPolicies xs).Fits (ofPolicies ys) := by
    simp only [(merge_spec _).eq_ok_iff, (union_spec _ _).refused_iff]
    grind
  rw [hunion, hrefused, hrefused, hrefused, oneModel_append]
  refine ⟨by tauto, ?_⟩
  by_cases h : OneModel xs ∧ OneModel ys ∧ (ofPolicies xs).Fits (ofPolicies ys)
  · obtain ⟨hxs, hys, hfits⟩ := h
    have hmerge : merge (xs ++ ys) = .ok ((ofPolicies xs).join (ofPolicies ys)) :=
      (merge_spec _).eq_ok_iff.2 ⟨oneModel_append.2 ⟨hxs, hys, hfits⟩, ofPolicies_append xs ys⟩
    refine .inr ⟨_, _, _, (merge_spec xs).eq_ok_iff.2 ⟨hxs, rfl⟩,
      (merge_spec ys).eq_ok_iff.2 ⟨hys, rfl⟩, (union_spec _ _).eq_ok_iff.2 ⟨hfits, rfl⟩, hmerge,
      OrderedMap.nodup_distinct _, ?_⟩
    rw [← ofPolicies_append, modelFingerprint_ofPolicies_eq_none_iff]
  · exact .inl h

/-! ### Any order -/

/-- Two lists grant the same, name the same policies, if not in the same order, and are of the same
model. -/
structure SameRights (a b : Acl) : Prop where
  /-- The grants. -/
  grants : a.grants = b.grants
  /-- The names of the policies. -/
  policies : ∀ name, name ∈ a.policies ↔ name ∈ b.policies
  /-- The model. -/
  model : a.modelFingerprint = b.modelFingerprint

/-- **What is merged depends on which policies there are,** and neither on their order nor on how
often they occur. -/
theorem merge_congr (h : ∀ p, p ∈ xs ↔ p ∈ ys) : Alike SameRights (merge xs) (merge ys) := by
  have hone : OneModel xs ↔ OneModel ys := by simp only [OneModel, h]
  refine (merge_spec xs).alike (merge_spec ys) hone fun hxs =>
    ⟨foldl_addPolicy_congr h, fun name => ?_, ?_⟩
  · simp only [ofPolicies, OrderedMap.mem_distinct, List.mem_map, h]
  · rcases xs with _ | ⟨p, xs⟩ <;> rcases ys with _ | ⟨q, ys⟩
    · rfl
    · exact absurd ((h q).2 List.mem_cons_self) List.not_mem_nil
    · exact absurd ((h p).1 List.mem_cons_self) List.not_mem_nil
    · exact congrArg some (hxs p List.mem_cons_self q ((h q).2 List.mem_cons_self))

/-- Fitting is mutual. -/
theorem fits_comm : a.Fits b ↔ b.Fits a :=
  ⟨fun h m hm n hn => (h n hn m hm).symm, fun h m hm n hn => (h n hn m hm).symm⟩

/-- A third list fits a combination if it fits both parts. -/
theorem Fits.join_iff (h : a.Fits b) : (a.join b).Fits c ↔ a.Fits c ∧ b.Fits c := by
  unfold Fits join at *
  generalize a.modelFingerprint = m at *
  generalize b.modelFingerprint = n at *
  rcases m with _ | m <;> rcases n with _ | n <;> simp_all

/-- Lists may be joined in any grouping. -/
theorem join_assoc (a b c : Acl) : (a.join b).join c = a.join (b.join c) := by
  have hgrants : unite (unite a.grants b.grants) c.grants =
      unite a.grants (unite b.grants c.grants) :=
    NameMap.unionWith_assoc _ _ _ _
  have hnames : OrderedMap.distinct (OrderedMap.distinct (a.policies ++ b.policies) ++ c.policies) =
      OrderedMap.distinct (a.policies ++ OrderedMap.distinct (b.policies ++ c.policies)) := by
    rw [OrderedMap.distinct_distinct_append, OrderedMap.distinct_append_distinct,
      List.append_assoc]
  simp only [join, hgrants, hnames, Option.or_assoc]

/-- The order in which fitting lists are joined makes no difference to the rights. -/
theorem Fits.join_comm (h : a.Fits b) : SameRights (a.join b) (b.join a) := by
  refine ⟨NameMap.unionWith_comm _ _ _, fun name => ?_, ?_⟩
  · simp only [join, OrderedMap.mem_distinct, List.mem_append, or_comm]
  · unfold Fits at h
    unfold join
    generalize a.modelFingerprint = m at *
    generalize b.modelFingerprint = n at *
    rcases m with _ | m <;> rcases n with _ | n <;> simp_all

/-- **Three lists may be combined from either end.** -/
theorem union_assoc (a b c : Acl) :
    Alike Eq (a.union b >>= fun ab => ab.union c) (b.union c >>= fun bc => a.union bc) := by
  refine ((union_spec a b).bind fun _ => union_spec _ c).alike
    ((union_spec b c).bind fun _ => union_spec a _) ?_ fun _ => join_assoc a b c
  constructor
  · rintro ⟨hab, h⟩
    obtain ⟨hac, hbc⟩ := hab.join_iff.1 h
    exact ⟨hbc, fits_comm.1 (hbc.join_iff.2 ⟨fits_comm.1 hab, fits_comm.1 hac⟩)⟩
  · rintro ⟨hbc, h⟩
    obtain ⟨hba, hca⟩ := hbc.join_iff.1 (fits_comm.1 h)
    exact ⟨fits_comm.1 hba, (fits_comm.1 hba).join_iff.2 ⟨fits_comm.1 hca, hbc⟩⟩

/-- **Two lists may be combined in either order.** -/
theorem union_comm (a b : Acl) : Alike SameRights (a.union b) (b.union a) :=
  (union_spec a b).alike (union_spec b a) fits_comm Fits.join_comm

/-- The lists that are made by merging policies and by combining such lists. -/
inductive Combined : Acl → Prop where
  /-- Policies were merged. -/
  | merge {policies : List CompiledPolicy} {a : Acl} (h : merge policies = .ok a) : Combined a
  /-- Two lists were combined. -/
  | union {a b c : Acl} (ha : Combined a) (hb : Combined b) (h : a.union b = .ok c) : Combined c

/-- A list that was made by merging and combining names every policy once. -/
theorem Combined.nodup (h : Combined a) : a.policies.Nodup := by
  cases h with
  | merge h =>
    obtain ⟨-, rfl⟩ := (merge_spec _).eq_ok_iff.1 h
    exact OrderedMap.nodup_distinct _
  | union _ _ h =>
    obtain ⟨-, rfl⟩ := (union_spec _ _).eq_ok_iff.1 h
    exact OrderedMap.nodup_distinct _

/-- A list that names every policy once is not changed by what it holds already. -/
theorem union_self (h : a.policies.Nodup) : a.union a = .ok a := by
  have hfits : a.Fits a := fun m hm n hn => Option.some.inj (hm.symm.trans hn)
  refine (union_spec a a).eq_ok_iff.2 ⟨hfits, ?_⟩
  rw [join, unite, NameMap.unionWith_self, OrderedMap.distinct_append_self h, Option.or_self]

/-- The empty list adds nothing on the right, -/
theorem union_empty (h : a.policies.Nodup) : a.union empty = .ok a := by
  refine (union_spec a empty).eq_ok_iff.2 ⟨nofun, ?_⟩
  rw [join, empty, unite, NameMap.unionWith_empty, List.append_nil, OrderedMap.distinct_eq_self h, Option.or_none]

/-- The empty list adds nothing on the left. -/
theorem empty_union (h : a.policies.Nodup) : empty.union a = .ok a := by
  refine (union_spec empty a).eq_ok_iff.2 ⟨nofun, ?_⟩
  rw [join, empty, unite, NameMap.empty_unionWith, List.nil_append, OrderedMap.distinct_eq_self h, Option.none_or]

/-- **A combination grants what one of the two lists grants.** -/
theorem isAuthorized_union {u : Acl} (h : a.union b = .ok u) (resource item cap : Text) :
    u.isAuthorized resource item cap = true ↔
      a.isAuthorized resource item cap = true ∨ b.isAuthorized resource item cap = true := by
  obtain ⟨-, rfl⟩ := (union_spec a b).eq_ok_iff.1 h
  simp only [isAuthorized_eq, join, NameMap.find?_unionWith_eq_merge]
  have hnone := ResourceGrants.not_allows_empty item cap
  rcases a.grants.find? resource with _ | g <;> rcases b.grants.find? resource with _ | g'
  · simp [hnone]
  · simp [hnone]
  · simp [hnone]
  · exact ResourceGrants.allows_union

/-- **Policies and lists may be combined in any order.**  What is merged depends on which policies
there are.  Lists that were made by merging and combining may be put together from either end and in
either order, and more than once; the list of no policies adds nothing; and a combination grants what
one of its parts grants. -/
theorem combination_laws :
    (∀ xs ys : List CompiledPolicy, (∀ p, p ∈ xs ↔ p ∈ ys) →
      Alike SameRights (merge xs) (merge ys)) ∧
    ∀ a b c : Acl, Combined a → Combined b → Combined c →
      Alike Eq (a.union b >>= fun ab => ab.union c) (b.union c >>= fun bc => a.union bc) ∧
      Alike SameRights (a.union b) (b.union a) ∧
      a.union a = .ok a ∧
      (∃ none, merge [] = .ok none ∧ none.union a = .ok a ∧ a.union none = .ok a) ∧
      ∀ u, a.union b = .ok u → ∀ resource item cap, u.isAuthorized resource item cap = true ↔
        a.isAuthorized resource item cap = true ∨ b.isAuthorized resource item cap = true :=
  ⟨fun _ _ => merge_congr, fun a b c ha _ _ => ⟨union_assoc a b c, union_comm a b,
    union_self ha.nodup, ⟨empty, rfl, empty_union ha.nodup, union_empty ha.nodup⟩,
    fun _ => isAuthorized_union⟩⟩

/-- The policy of guests, who read one book. -/
def guests : CompiledPolicy :=
  ⟨"guests", "m", NameMap.ofList [("book", [⟨"lotr", NameSet.ofNames ["read"]⟩])]⟩

/-- The policy of clerks, who list all books and lend none. -/
def clerks : CompiledPolicy :=
  ⟨"clerks", "m", NameMap.ofList [("book", [⟨wildcard, NameSet.ofNames ["list"]⟩]), ("loan", [])]⟩

/-- Guests and clerks may be merged in any order, and together they read one book and list it. -/
theorem combination_counter : ∃ a b u, merge [guests] = .ok a ∧ merge [clerks] = .ok b ∧
    Alike SameRights (merge [guests, clerks]) (merge [clerks, guests, clerks]) ∧
    a.union b = .ok u ∧ u.isAuthorized "book" "lotr" "read" = true ∧
    u.isAuthorized "book" "lotr" "list" = true := by
  have hsame : ∀ p, p ∈ [guests, clerks] ↔ p ∈ [clerks, guests, clerks] := by
    intro p
    simp only [List.mem_cons, List.not_mem_nil]
    tauto
  have hnone : merge [] = .ok empty := rfl
  have hmerge : ∀ p, merge [p] = .ok (ofPolicies [p]) := fun p => rfl
  have hunion : (ofPolicies [guests]).union (ofPolicies [clerks]) =
      .ok ((ofPolicies [guests]).join (ofPolicies [clerks])) := rfl
  obtain ⟨-, -, -, -, hgrants⟩ := combination_laws.2 (ofPolicies [guests]) (ofPolicies [clerks])
    empty (.merge (hmerge guests)) (.merge (hmerge clerks)) (.merge hnone)
  exact ⟨_, _, _, hmerge guests, hmerge clerks, combination_laws.1 _ _ hsame, hunion,
    (hgrants _ hunion _ _ _).2 (.inl (by decide +kernel)),
    (hgrants _ hunion _ _ _).2 (.inr (by decide +kernel))⟩

end Acl

end Gatehouse
