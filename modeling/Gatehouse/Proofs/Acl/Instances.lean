import Gatehouse.Proofs.Acl.Growth
import Mathlib.Data.Fintype.EquivFin

/-!
# Asking lists about any instance

A list of texts may be asked about an instance that is other data.  Main statement: what a merged
list grants on the instance that stands for all, it grants on every one
(`AnyAcl.isAuthorized_of_wildcard`).
-/

namespace Gatehouse

/-- There are infinitely many texts, those of strings among them. -/
instance : Infinite Text := Infinite.of_injective Text.ofString fun _ _ => Text.ofString_inj.1

variable {a : Acl} {resource c : Text} {item : Value}

/-- A capability is found among those that are granted everywhere before the instance is looked
up. -/
theorem LooseGrants.allows_text (g : LooseGrants) (item : Value) (c : Text) :
    g.allows item c = if Value.among (.text c) g.everywhere then .ok true
      else item.lookedUp >>= fun i => .ok (Value.among (.text c) (g.exactly i)) := rfl

namespace Acl

/-- **What a merged list grants on the instance that stands for all, it grants on every text:** a rule
that is about the one is about all. -/
theorem isAuthorized_of_wildcard {cs : List CompiledPolicy} (hmerge : merge cs = .ok a)
    (h : a.isAuthorized resource wildcard c = true) (i : Text) :
    a.isAuthorized resource i c = true := by
  obtain ⟨p, hp, r, hr, habout, hc⟩ := (isAuthorized_merge_iff hmerge).1 h
  refine (isAuthorized_merge_iff hmerge).2 ⟨p, hp, r, hr, ?_, hc⟩
  rw [CompiledRule.isAbout, Bool.or_eq_true] at habout ⊢
  exact .inl (habout.elim id id)

/-- What is granted on every text is granted everywhere, as some text has no grant of its own. -/
theorem exists_mem_everywhere (h : ∀ i, a.isAuthorized resource i c = true) :
    ∃ g, a.grantsOn resource = some g ∧ c ∈ g.everywhere := by
  rcases hg : a.grantsOn resource with _ | g
  · have hnone := h wildcard
    rw [isAuthorized, hg] at hnone
    cases hnone
  · obtain ⟨i, hi⟩ := Infinite.exists_notMem_finset g.exact.names.toFinset
    have hallowed := h i
    rw [isAuthorized_eq, ← grantsOn, hg, Option.getD_some, ResourceGrants.allows_iff] at hallowed
    rw [List.mem_toFinset, NameMap.mem_names_iff, NameMap.not_mem_iff] at hi
    rw [ResourceGrants.exactly, hi] at hallowed
    exact ⟨g, rfl, hallowed.resolve_right (NameSet.not_mem_empty c)⟩

end Acl

namespace AnyAcl

/-- A check is passed exactly if the capability is granted. -/
theorem checkAuthorized_of_ok {a : AnyAcl} {resource item c : Value} {b : Bool}
    (h : a.isAuthorized resource item c = .ok b) : a.checkAuthorized resource item c =
      if b then .ok () else .error (.fault (.notAuthorized resource item c)) := by
  rw [checkAuthorized, h]
  cases b <;> rfl

/-- What a list of texts is asked about data that need not be a text. -/
theorem isAuthorized_strict_data (a : Acl) (resource c : Text) (item : Value) :
    (strict a).isAuthorized resource item c =
      (a.grantsOn resource).elim (.ok false) fun g => g.loosen.allows item c := by
  rw [isAuthorized_eq_loosen, loosen, LooseAcl.isAuthorized, LooseAcl.grantsOn_loosen]
  cases a.grantsOn resource <;> rfl

/-- A list of texts can be asked about every instance that can be looked up. -/
theorem exists_isAuthorized (a : Acl) (resource c : Text) (hitem : item.isNested = false) :
    ∃ b, (strict a).isAuthorized resource item c = .ok b := by
  have hlookup : item.lookedUp = .ok item := by simp [Value.lookedUp, Value.unfit?, hitem]
  rw [isAuthorized_strict_data]
  rcases a.grantsOn resource with _ | g
  · exact ⟨false, rfl⟩
  · rw [Option.elim_some, LooseGrants.allows_text, hlookup]
    split <;> exact ⟨_, rfl⟩

/-- **What a merged list grants on the instance that stands for all, it grants on every one.** -/
theorem isAuthorized_of_wildcard {cs : List CompiledPolicy} (hmerge : Acl.merge cs = .ok a)
    (h : (strict a).isAuthorized resource wildcard c = .ok true) (item : Value) :
    (strict a).isAuthorized resource item c = .ok true := by
  obtain ⟨g, hg, hmem⟩ :=
    Acl.exists_mem_everywhere (Acl.isAuthorized_of_wildcard hmerge (Except.ok.inj h))
  have hamong : Value.among (.text c) g.loosen.everywhere = true :=
    Value.among_names_iff.2 ⟨c, hmem, rfl⟩
  rw [isAuthorized_strict_data, hg, Option.elim_some, LooseGrants.allows_text, if_pos hamong]

end AnyAcl

end Gatehouse
