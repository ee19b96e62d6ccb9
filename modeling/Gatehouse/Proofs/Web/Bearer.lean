import Gatehouse.Web.Bearer
import Mathlib.Data.List.DropRight
import Mathlib.Data.List.TakeWhile

/-!
# Reading bearer secrets

A header carries a secret if the scheme stands in front of a text that is not blank; the secret is
what that text is stripped to (`Text.Strips`).  Main statement: a secret is read exactly if the
header carries it (`Web.bearerSecret_eq_some_iff`).
-/

namespace Gatehouse

namespace Text

variable {l m : List CodePoint}

/-- Stripping drops blanks in front and behind. -/
theorem stripPoints_eq (l : List CodePoint) :
    stripPoints l = (l.dropWhile isBlank).rdropWhile isBlank := rfl

/-- Nothing is left exactly of blanks. -/
theorem stripPoints_eq_nil_iff : stripPoints l = [] ↔ ∀ c ∈ l, isBlank c = true := by
  rw [stripPoints_eq, List.rdropWhile_eq_nil_iff]
  constructor
  · intro h c hc
    rw [← List.takeWhile_append_dropWhile (p := isBlank) (l := l), List.mem_append] at hc
    exact hc.elim (fun hc => List.mem_takeWhile_imp hc) (h c)
  · exact fun h c hc => h c ((List.dropWhile_sublist _).subset hc)

/-- **A text is stripped to another one:** blanks stand around this, and it neither begins nor ends
with one. -/
def Strips (l m : List CodePoint) : Prop :=
  ∃ lead trail, l = lead ++ m ++ trail ∧ (∀ c ∈ lead, isBlank c = true) ∧
    (∀ c ∈ trail, isBlank c = true) ∧ (∀ c, m.head? = some c → isBlank c = false) ∧
    ∀ c, m.getLast? = some c → isBlank c = false

/-- Stripping strips. -/
theorem strips_stripPoints (l : List CodePoint) : Strips l (stripPoints l) := by
  refine ⟨l.takeWhile isBlank, (l.dropWhile isBlank).rtakeWhile isBlank, ?_,
    fun c hc => List.mem_takeWhile_imp hc, fun c hc => List.mem_rtakeWhile_imp hc, ?_, ?_⟩
  · rw [stripPoints_eq, List.append_assoc, List.rdropWhile_append_rtakeWhile,
      List.takeWhile_append_dropWhile]
  · intro c hc
    -- what is left begins as the text does without its first blanks
    have hhead : (l.dropWhile isBlank).head? = some c := by
      obtain ⟨trail, htrail⟩ := List.rdropWhile_prefix isBlank (l := l.dropWhile isBlank)
      rw [← htrail, List.head?_append, ← stripPoints_eq, hc, Option.some_or]
    have hnot := List.head?_dropWhile_not isBlank l
    rw [hhead] at hnot
    simpa using hnot
  · intro c hc
    have hne : (l.dropWhile isBlank).rdropWhile isBlank ≠ [] := by
      rintro hnil
      rw [stripPoints_eq, hnil] at hc
      cases hc
    rw [stripPoints_eq, List.getLast?_eq_some_getLast hne, Option.some.injEq] at hc
    have hlast := List.rdropWhile_last_not isBlank _ hne
    rw [hc] at hlast
    simpa using hlast

/-- **What is left of a text without the blanks at both ends** is what it is stripped to. -/
theorem stripPoints_eq_iff : stripPoints l = m ↔ Strips l m := by
  constructor
  · rintro rfl
    exact strips_stripPoints l
  · rintro ⟨lead, trail, rfl, hlead, htrail, hhead, hlast⟩
    rcases List.eq_nil_or_concat' m with rfl | ⟨m', b, rfl⟩
    · rw [stripPoints_eq_nil_iff]
      intro c hc
      rw [List.append_nil, List.mem_append] at hc
      exact hc.elim (hlead c) (htrail c)
    have hfront : ((lead ++ (m' ++ [b])) ++ trail).dropWhile isBlank = (m' ++ [b]) ++ trail := by
      rw [List.append_assoc, List.dropWhile_append_of_pos hlead, List.dropWhile_eq_self_iff]
      intro hl
      rcases m' with _ | ⟨a, m'⟩
      · simpa using hhead b rfl
      · simpa using hhead a rfl
    have hback : ((m' ++ [b]) ++ trail).rdropWhile isBlank = m' ++ [b] := by
      rw [List.rdropWhile, List.reverse_append, List.dropWhile_append_of_pos
        (fun c hc => htrail c (List.mem_reverse.1 hc))]
      change (m' ++ [b]).rdropWhile isBlank = _
      rw [List.rdropWhile_eq_self_iff]
      intro hne
      simpa using hlast b (by simp)
    rw [stripPoints_eq, hfront, hback]

end Text

namespace Web

variable {header secret : Text}

/-- **A header carries a secret** if the scheme stands in front of a text that is not blank and is
stripped to the secret. -/
def Carries (header secret : Text) : Prop :=
  ∃ rest : Text, header = "Bearer " ++ rest ∧ (∃ c ∈ rest.points, Text.isBlank c = false) ∧
    Text.Strips rest.points secret.points

/-- A secret holds no surrogate if the header holds none. -/
theorem Carries.isUnicode (h : Carries header secret) (hheader : header.isUnicode = true) :
    secret.isUnicode = true := by
  obtain ⟨rest, rfl, -, lead, trail, hrest, -⟩ := h
  refine List.all_eq_true.2 fun c hc => List.all_eq_true.1 hheader c ?_
  rw [Text.points_append, hrest]
  simp [hc]

/-- A header begins with the scheme exactly if it is the scheme and the rest. -/
theorem isPrefixOf?_bearerScheme {rest : List CodePoint} :
    bearerScheme.points.isPrefixOf? header.points = some rest ↔
      header = "Bearer " ++ Text.mk rest := by
  rw [List.isPrefixOf?_eq_some_iff_append_eq, eq_comm]
  exact ⟨fun h => Text.ext h, fun h => congrArg Text.points h⟩

/-- **A secret is read exactly if the header carries it.** -/
theorem bearerSecret_eq_some_iff : bearerSecret header = some secret ↔ Carries header secret := by
  have hblank : ∀ rest : List CodePoint, (Text.stripPoints rest).isEmpty = false ↔
      ∃ c ∈ rest, Text.isBlank c = false := by
    intro rest
    rw [List.isEmpty_eq_false_iff, ne_eq, Text.stripPoints_eq_nil_iff]
    simp
  constructor
  · intro h
    unfold bearerSecret at h
    split at h
    · cases h
    · next rest hrest =>
      dsimp only at h
      split at h
      · cases h
      · next hne =>
        refine ⟨⟨rest⟩, isPrefixOf?_bearerScheme.1 hrest, ?_, ?_⟩
        · exact (hblank rest).1 (by simpa using hne)
        · rw [← Option.some.inj h]
          exact Text.strips_stripPoints rest
  · rintro ⟨rest, hheader, hchar, hstrips⟩
    have hrest : bearerScheme.points.isPrefixOf? header.points = some rest.points :=
      isPrefixOf?_bearerScheme.2 hheader
    have hsecret := Text.stripPoints_eq_iff.2 hstrips
    have hne : secret.points.isEmpty = false := hsecret ▸ (hblank rest.points).2 hchar
    simp only [bearerSecret, hrest, hsecret, hne, Bool.false_eq_true, if_false]

example : bearerSecret "Bearer \tkey " = some "key" := by decide +kernel

/-- No secret is read exactly if the header carries none. -/
theorem bearerSecret_eq_none_iff :
    bearerSecret header = none ↔ ¬ ∃ secret, Carries header secret := by
  simp only [← bearerSecret_eq_some_iff, ← Option.isSome_iff_exists, Bool.not_eq_true,
    Option.isSome_eq_false_iff, Option.isNone_iff_eq_none]

end Web

end Gatehouse
