import Gatehouse.Policy.Offered

/-!
# The names that a token lists

Of the names that a token lists, each counts once, where it first occurs.  Main statements: no two of
the names that are left count as equal (`Token.pairwise_of_distinctNames`), and each of them can be
part of a key (`Token.isNested_of_distinctNames`).
-/

namespace Gatehouse

namespace Value

variable {v : Value} {l : List Value}

/-- What is left of a list without repetitions was in it. -/
theorem mem_of_mem_distinct (h : v ∈ distinct l) : v ∈ l := by
  induction l with
  | nil => cases h
  | cons w rest ih =>
    rcases List.mem_cons.1 h with rfl | h
    · exact List.mem_cons_self
    · exact List.mem_cons_of_mem _ (ih (List.mem_filter.1 h).1)

/-- No two members are the same in a list without repetitions. -/
theorem pairwise_distinct (l : List Value) : (distinct l).Pairwise fun v w => v.same w = false := by
  induction l with
  | nil => exact .nil
  | cons v rest ih =>
    refine .cons (fun w hw => ?_) (ih.filter _)
    simpa using (List.mem_filter.1 hw).2

/-- What counts as equal to data counts as equal to the same as it. -/
theorem same_congr_left {w : Value} (h : v.same w = true) (x : Value) : v.same x = w.same x := by
  unfold same at h ⊢
  rw [of_decide_eq_true h]

/-- Repetitions make no difference to what is among the members of a list. -/
theorem among_distinct : v.among (distinct l) = v.among l := by
  induction l with
  | nil => rfl
  | cons w rest ih =>
    simp only [among, distinct, List.any_cons] at ih ⊢
    rcases hw : v.same w with _ | _
    · rw [Bool.false_or, Bool.false_or, ← ih, List.any_filter]
      refine congrArg _ (funext fun x => ?_)
      rcases hx : v.same x with _ | _
      · exact Bool.and_false _
      · -- what counts as equal to the value does not count as equal to the first of the list
        rw [same_comm w x, ← same_congr_left hx w, hw]
        rfl
    · rfl

end Value

namespace Token

variable {names : Value} {found : List Value}

/-- The names that a token lists are data that a set can hold, each where it stands first. -/
theorem eq_distinct_of_distinctNames (h : distinctNames names = .ok found) :
    ∃ l, names.elements = .ok l ∧ found = Value.distinct l ∧ ∀ v ∈ l, v.isNested = false := by
  rcases helements : names.elements with p | l
  · simp [distinctNames, helements, bind, Except.bind] at h
  have hmembers : Value.distinctMembers l = .ok found := by
    simpa [distinctNames, helements, bind, Except.bind] using h
  unfold Value.distinctMembers at hmembers
  split at hmembers
  · cases hmembers
  · next hfit =>
    refine ⟨l, rfl, (Except.ok.inj hmembers).symm, fun v hv => ?_⟩
    have hunfit := List.findSome?_eq_none_iff.1 hfit v hv
    cases hn : v.isNested with
    | false => rfl
    | true => simp [Value.unfit?, hn] at hunfit

/-- **Names that can be members of a set can be part of a key.** -/
theorem isNested_of_distinctNames (h : distinctNames names = .ok found) :
    ∀ name ∈ found, name.isNested = false := by
  obtain ⟨l, -, rfl, hl⟩ := eq_distinct_of_distinctNames h
  exact fun name hname => hl name (Value.mem_of_mem_distinct hname)

/-- **No two names count as equal.** -/
theorem pairwise_of_distinctNames (h : distinctNames names = .ok found) :
    found.Pairwise fun v w => v.same w = false := by
  obtain ⟨l, -, rfl, -⟩ := eq_distinct_of_distinctNames h
  exact Value.pairwise_distinct l

end Token

end Gatehouse
