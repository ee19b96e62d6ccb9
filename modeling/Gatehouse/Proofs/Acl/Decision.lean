import Gatehouse.Acl.Any
import Gatehouse.Policy.Offered
import Gatehouse.Proofs.Acl.Merged
import Gatehouse.Proofs.Policy.Compiled
import Mathlib

/-!
# Decisions mean what the policies say

From authored policies to a decision there are four stages: aliases are expanded, rules compiled,
their grants grouped by resource, and the group of a resource split into what holds everywhere and
what holds on single instances.  Main statement: together they decide just what the policies say
(`AnyAcl.isAuthorized_merge_iff_grants`).
-/

namespace Gatehouse

/-- **What a policy says:** it grants a capability on an instance of a resource if one of its rules
is about that resource, covers the instance, and requests a name that means the capability. -/
def Policy.Grants (p : Policy) (resources : Registry) (resource item c : Text) : Prop :=
  ∃ r ∈ p.rules, r.resource = resource ∧ r.Covers item ∧ r.AsksFor resources c

namespace OfferedPolicy

variable {m : ValidModel}

/-- What policies of texts compile to consists of texts. -/
theorem strict_of_compile {offered : List OfferedPolicy} {policies : List Policy}
    {compiled : List AnyCompiled} (hp : offered.map strict? = policies.map some)
    (hc : offered.map (·.compile m) = compiled.map .ok) :
    ∃ cs, compiled = cs.map .strict ∧ List.Forall₂ (fun p c => p.compile m = .ok c) policies cs := by
  induction offered generalizing policies compiled with
  | nil =>
    obtain rfl : policies = [] := by simpa using hp.symm
    obtain rfl : compiled = [] := by simpa using hc.symm
    exact ⟨[], rfl, .nil⟩
  | cons o rest ih =>
    obtain _ | ⟨p, policies⟩ := policies
    · simp at hp
    · obtain _ | ⟨c, compiled⟩ := compiled
      · simp at hc
      · simp only [List.map_cons, List.cons.injEq] at hp hc
        obtain ⟨c', hc', rfl⟩ := (compile_strict_eq_ok_iff hp.1).1 hc.1
        obtain ⟨cs, rfl, hcs⟩ := ih hp.2 hc.2
        exact ⟨c' :: cs, rfl, .cons hc' hcs⟩

end OfferedPolicy

namespace AnyAcl

/-- The rules of compiled policies grant what the policies say. -/
theorem exists_rule_iff_grants {m : ValidModel} (hm : m.IsValidated) {policies : List Policy}
    {cs : List CompiledPolicy} (h : List.Forall₂ (fun p c => p.compile m = .ok c) policies cs)
    (resource item c : Text) :
    (∃ p ∈ cs, ∃ r ∈ p.rulesFor resource, r.isAbout item = true ∧ c ∈ r.capabilities) ↔
      ∃ p ∈ policies, p.Grants m.resources resource item c := by
  induction h with
  | nil => simp
  | cons hc _ ih =>
    simp only [List.mem_cons, or_and_right, exists_or, exists_eq_left, ih,
      Policy.rulesFor_iff hm hc, Policy.Grants]

/-- **A decision means what the policies say.**  Policies that compile against a validated model can
be merged, and the merged list grants a capability on an instance of a resource if one of the
policies does, and denies it if none does.  So without rules everything is denied. -/
theorem isAuthorized_merge_iff_grants {resources : Registry} {m : ValidModel}
    (hm : (Model.draft resources).validate = .ok m) {offered : List OfferedPolicy}
    {policies : List Policy} (hp : offered.map OfferedPolicy.strict? = policies.map some)
    {compiled : List AnyCompiled} (hc : offered.map (·.compile m) = compiled.map .ok) :
    ∃ a, merge compiled = .ok a ∧
      (∀ resource item c,
        (a.isAuthorized (.text resource) (.text item) (.text c) = .ok true ↔
          ∃ p ∈ policies, p.Grants resources resource item c) ∧
        (a.isAuthorized (.text resource) (.text item) (.text c) = .ok false ↔
          ¬ ∃ p ∈ policies, p.Grants resources resource item c)) ∧
      ((∀ p ∈ policies, p.rules = []) → ∀ resource item c,
        a.isAuthorized (.text resource) (.text item) (.text c) = .ok false) := by
  obtain ⟨hvalid, rfl⟩ := ValidModel.isValidated_of_validate hm
  obtain ⟨cs, rfl, hcs⟩ := OfferedPolicy.strict_of_compile hp hc
  have hmodel : ∀ c ∈ cs, c.modelFingerprint = m.fingerprint := by
    clear hp hc
    induction hcs with
    | nil => exact fun _ h => nomatch h
    | cons hpc _ ih =>
      rintro c (_ | ⟨_, hmem⟩)
      · exact Policy.modelFingerprint_of_compile hpc
      · exact ih c hmem
  obtain ⟨acl, hacl⟩ := Acl.exists_merge hmodel
  have hiff : ∀ resource item c, acl.isAuthorized resource item c = true ↔
      ∃ p ∈ policies, p.Grants m.resources resource item c := by
    intro resource item c
    rw [Acl.isAuthorized_merge_iff hacl, exists_rule_iff_grants hvalid hcs]
  refine ⟨.strict acl, by rw [merge_strict, hacl]; rfl, fun resource item c => ⟨?_, ?_⟩,
    fun hempty resource item c => ?_⟩
  · rw [isAuthorized_strict, Except.ok.injEq, hiff]
  · rw [isAuthorized_strict, Except.ok.injEq, ← hiff, Bool.not_eq_true]
  · rw [isAuthorized_strict, Except.ok.injEq, ← Bool.not_eq_true, hiff]
    rintro ⟨p, hmem, r, hr, -⟩
    rw [hempty p hmem] at hr
    cases hr

/-- Books, which readers view. -/
def books : Registry :=
  OrderedMap.ofList
    [("book", ⟨["list", "read"], OrderedMap.ofList [("view", ["list", "read"])]⟩)]

/-- The model of books. -/
def booksModel : ValidModel :=
  ⟨books, NameMap.ofList [("book", NameMap.ofList [("view", NameSet.ofNames ["list", "read"])])],
    books.fingerprint⟩

/-- The policy of readers, who may view all books and do nothing else with one of them. -/
def readers : Policy :=
  ⟨"readers", [⟨"book", "*", ["view", "view"]⟩, ⟨"book", "lotr", []⟩], .null⟩

/-- The policy of readers for the model of books. -/
def readersCompiled : CompiledPolicy :=
  ⟨"readers", books.fingerprint,
    NameMap.ofList [("book", [⟨"*", NameSet.ofNames ["list", "read"]⟩, ⟨"lotr", ∅⟩])]⟩

/-- The draft of the books is validated. -/
theorem validate_books : (Model.draft books).validate = .ok booksModel := by
  have h : Registry.expansionsOf books.entries = .ok
      (NameMap.ofList [("book", NameMap.ofList [("view", NameSet.ofNames ["list", "read"])])]) := by
    cbv
  rw [Model.validate, h]
  rfl

/-- What the policy of readers is compiled to. -/
theorem compile_readers : readers.compile booksModel = .ok readersCompiled := by
  unfold booksModel readersCompiled
  -- the digest of the definitions need not be worked out
  generalize books.fingerprint = f
  cbv

/-- Readers read every book and write none. -/
theorem isAuthorized_merge_readers :
    ∃ a, merge [.strict readersCompiled] = .ok a ∧
      a.isAuthorized (.text "book") (.text "lotr") (.text "read") = .ok true ∧
      a.isAuthorized (.text "book") (.text "lotr") (.text "write") = .ok false := by
  have hp : [OfferedPolicy.ofPolicy readers].map OfferedPolicy.strict? = [readers].map some := by
    simp [OfferedPolicy.strict?_ofPolicy]
  have hc : [OfferedPolicy.ofPolicy readers].map (·.compile booksModel) =
      [AnyCompiled.strict readersCompiled].map .ok := by
    simp [OfferedPolicy.compile_ofPolicy, compile_readers, Except.mapError, Except.map]
  obtain ⟨a, ha, hiff, -⟩ := isAuthorized_merge_iff_grants validate_books hp hc
  refine ⟨a, ha, (hiff "book" "lotr" "read").1.2 ?_, (hiff "book" "lotr" "write").2.2 ?_⟩
  · exact ⟨readers, by decide, ⟨"book", "*", ["view", "view"]⟩, by decide, rfl, .inl rfl,
      ⟨["list", "read"], OrderedMap.ofList [("view", ["list", "read"])]⟩, by decide +kernel,
      by decide, "view", by decide,
      .inr ⟨"view", .refl, ["list", "read"], by decide +kernel, by decide, .inl (by decide)⟩⟩
  · rintro ⟨p, hmem, r, hr, -, -, d, hd, hcap, -⟩
    obtain rfl := List.mem_singleton.1 hmem
    have hbook : r.resource = "book" := by
      rcases List.mem_cons.1 hr with rfl | hr
      · rfl
      · rw [List.mem_singleton.1 hr]
    have hfind : books.find? "book" =
        some ⟨["list", "read"], OrderedMap.ofList [("view", ["list", "read"])]⟩ := by
      decide +kernel
    rw [hbook, hfind] at hd
    obtain rfl := Option.some.inj hd
    revert hcap
    decide

end AnyAcl

end Gatehouse
