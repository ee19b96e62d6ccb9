import Gatehouse.Text.Utf16
import Mathlib.Data.List.Chain

/-!
# Surrogates in texts

Writing a code point above `0xffff` in UTF-16 takes a pair of surrogates, a high one and a low one.
A text that holds a high surrogate directly before a low one is therefore written like another
text, the one with the code point of the pair in their place.  `Text.split` takes all pairs apart,
and texts are written alike exactly if they are then the same.  A text is whole if it holds no such
pair (`Text.IsWhole`); every text without surrogates is (`Text.isWhole_of_isUnicode`), and so is one
with single surrogates here and there.  Main statement: whole texts that are written alike are the
same (`Text.eq_of_split_eq`).
-/

namespace Gatehouse

namespace CodePoint

variable {c d : CodePoint}

/-- The number of the high surrogate of a code point. -/
theorem toNat_high (c : CodePoint) : c.high.toNat = 0xd800 + (c.toNat - 0x10000) / 0x400 := rfl

/-- The number of the low surrogate of a code point. -/
theorem toNat_low (c : CodePoint) : c.low.toNat = 0xdc00 + (c.toNat - 0x10000) % 0x400 := rfl

/-- A code point below `0x10000` is one unit. -/
theorem split_of_lt (h : c.toNat < 0x10000) : c.split = [c] := if_pos h

/-- A code point from `0x10000` on is two units. -/
theorem split_of_not_lt (h : ¬ c.toNat < 0x10000) : c.split = [c.high, c.low] := if_neg h

/-- Units are below `0x10000`. -/
theorem lt_of_mem_flatMap_split {l : List CodePoint} :
    ∀ c ∈ l.flatMap split, c.toNat < 0x10000 := by
  intro c hc
  obtain ⟨d, -, hd⟩ := List.mem_flatMap.1 hc
  have hlt := d.isLt
  by_cases hd' : d.toNat < 0x10000
  · rw [split_of_lt hd', List.mem_singleton] at hd
    exact hd ▸ hd'
  · rw [split_of_not_lt hd', List.mem_pair] at hd
    rcases hd with rfl | rfl
    · rw [toNat_high]
      omega
    · rw [toNat_low]
      omega

/-- The high surrogate of a code point is one. -/
theorem isHigh_high (c : CodePoint) : c.high.isHigh = true := by
  have := c.isLt
  rw [isHigh, toNat_high, Bool.and_eq_true, decide_eq_true_eq, decide_eq_true_eq]
  omega

/-- The low surrogate of a code point is one. -/
theorem isLow_low (c : CodePoint) : c.low.isLow = true := by
  rw [isLow, toNat_low, Bool.and_eq_true, decide_eq_true_eq, decide_eq_true_eq]
  omega

/-- No high surrogate is a low one. -/
theorem high_ne_low : c.high ≠ d.low := by
  have := c.isLt
  rw [Ne, ext_iff, toNat_high, toNat_low]
  omega

/-- A code point above `0xffff` is known by its pair. -/
theorem eq_of_pair_eq (hc : ¬ c.toNat < 0x10000) (hd : ¬ d.toNat < 0x10000)
    (hhigh : c.high = d.high) (hlow : c.low = d.low) : c = d := by
  rw [ext_iff, toNat_high, toNat_high] at hhigh
  rw [ext_iff, toNat_low, toNat_low] at hlow
  exact ext (by omega)

/-- Whether two code points may stand next to each other in a whole text. -/
def Apart (c d : CodePoint) : Prop := ¬ (c.isHigh = true ∧ d.isLow = true)

instance : DecidableRel Apart := fun c d =>
  inferInstanceAs (Decidable (¬ (c.isHigh = true ∧ d.isLow = true)))

/-- Where a high surrogate stands in a whole text, no low one is written behind it. -/
theorem flatMap_split_ne {l m : List CodePoint} (hl : (c.high :: l).IsChain Apart) :
    l.flatMap split ≠ d.low :: m := by
  cases l with
  | nil => simp
  | cons e l =>
    intro h
    by_cases he : e.toNat < 0x10000
    · rw [List.flatMap_cons, split_of_lt he] at h
      obtain rfl : e = d.low := (List.cons.inj h).1
      exact (List.isChain_cons_cons.1 hl).1 ⟨isHigh_high c, isLow_low d⟩
    · rw [List.flatMap_cons, split_of_not_lt he] at h
      exact high_ne_low (List.cons.inj h).1

/-- Code points that stand apart are known by their units. -/
theorem eq_of_flatMap_split_eq {l m : List CodePoint} (hl : l.IsChain Apart) (hm : m.IsChain Apart)
    (h : l.flatMap split = m.flatMap split) : l = m := by
  have hne : ∀ (c : CodePoint) (l : List CodePoint), (c :: l).flatMap split ≠ [] := by
    intro c l
    by_cases hc : c.toNat < 0x10000 <;> simp [split, hc]
  induction l generalizing m with
  | nil =>
    cases m with
    | nil => rfl
    | cons d m => exact absurd h.symm (hne d m)
  | cons c l ih =>
    cases m with
    | nil => exact absurd h (hne c l)
    | cons d m =>
      rw [List.flatMap_cons, List.flatMap_cons] at h
      by_cases hc : c.toNat < 0x10000 <;> by_cases hd : d.toNat < 0x10000
      · rw [split_of_lt hc, split_of_lt hd] at h
        obtain ⟨rfl, hrest⟩ := List.cons.inj h
        rw [ih (List.isChain_cons.1 hl).2 (List.isChain_cons.1 hm).2 hrest]
      · rw [split_of_lt hc, split_of_not_lt hd] at h
        obtain ⟨rfl, hrest⟩ := List.cons.inj h
        exact absurd hrest (flatMap_split_ne hl)
      · rw [split_of_not_lt hc, split_of_lt hd] at h
        obtain ⟨rfl, hrest⟩ := List.cons.inj h
        exact absurd hrest.symm (flatMap_split_ne hm)
      · rw [split_of_not_lt hc, split_of_not_lt hd] at h
        obtain ⟨hhigh, htail⟩ := List.cons.inj h
        obtain ⟨hlow, hrest⟩ := List.cons.inj htail
        rw [eq_of_pair_eq hc hd hhigh hlow,
          ih (List.isChain_cons.1 hl).2 (List.isChain_cons.1 hm).2 hrest]

end CodePoint

namespace Text

/-- A text in units of UTF-16: each code point above `0xffff` is taken apart into its pair of
surrogates. -/
def split (s : Text) : Text := ⟨s.points.flatMap CodePoint.split⟩

/-- **A text without pairs of surrogates:** no high one stands directly before a low one. -/
def IsWhole (s : Text) : Prop := s.points.IsChain CodePoint.Apart

instance (s : Text) : Decidable s.IsWhole :=
  inferInstanceAs (Decidable (s.points.IsChain CodePoint.Apart))

/-- A text without surrogates is whole. -/
theorem isWhole_of_isUnicode {s : Text} (h : s.isUnicode = true) : s.IsWhole := by
  refine List.Pairwise.isChain (List.pairwise_of_forall_mem_list fun c hc d _ hsurrogates => ?_)
  have hnot := List.all_eq_true.1 h c hc
  simp [CodePoint.isSurrogate, hsurrogates.1] at hnot

/-- **Whole texts that are written alike are the same.** -/
theorem eq_of_split_eq {s t : Text} (hs : s.IsWhole) (ht : t.IsWhole) (h : s.split = t.split) :
    s = t :=
  ext (CodePoint.eq_of_flatMap_split_eq hs ht (congrArg points h))

/-- Lists of whole texts that are written alike are the same. -/
theorem eq_of_map_split_eq {l m : List Text} (hl : ∀ s ∈ l, s.IsWhole) (hm : ∀ s ∈ m, s.IsWhole)
    (h : l.map split = m.map split) : l = m := by
  induction l generalizing m with
  | nil => exact (List.map_eq_nil_iff.1 h.symm).symm
  | cons s l ih =>
    cases m with
    | nil => cases h
    | cons t m =>
      rw [List.forall_mem_cons] at hl hm
      obtain ⟨hhead, htail⟩ := List.cons.inj h
      rw [eq_of_split_eq hl.1 hm.1 hhead, ih hl.2 hm.2 htail]

/-- A pair of surrogates. -/
def pair : Text := ⟨[⟨0xd83d, by decide⟩, ⟨0xde00, by decide⟩]⟩

/-- The character that the pair stands for. -/
def face : Text := ⟨[⟨0x1f600, by decide⟩]⟩

/-- A pair of surrogates is written like the character that it stands for. -/
theorem split_pair : pair.split = face.split := by decide

/-- The pair is not the character. -/
theorem pair_ne_face : pair ≠ face := by decide

end Text

end Gatehouse
