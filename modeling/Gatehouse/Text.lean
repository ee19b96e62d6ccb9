/-!
# Texts

A text is a list of code points.  A code point may be a surrogate, one of the numbers that UTF-16
keeps for the halves of a pair and that stand for no character: a `String` is a text without
surrogates (`Text.ofString`), but a caller's name, and a secret, may hold them.  Texts are compared
code point by code point, and the order is total (`Text.le_total`).
-/

namespace Gatehouse

/-- A code point: the number of a character, or a surrogate. -/
structure CodePoint where
  /-- The number. -/
  toNat : Nat
  /-- Code points are below this bound. -/
  isLt : toNat < 0x110000
deriving DecidableEq

namespace CodePoint

/-- A code point is known by its number. -/
theorem ext {c d : CodePoint} (h : c.toNat = d.toNat) : c = d := by
  cases c; cases d; cases h; rfl

/-- Code points are equal exactly if their numbers are. -/
theorem ext_iff {c d : CodePoint} : c = d ↔ c.toNat = d.toNat := ⟨fun h => h ▸ rfl, ext⟩

/-- The code point of a character. -/
def ofChar (c : Char) : CodePoint := ⟨c.toNat, by
  rcases c.valid with h | h
  · exact Nat.lt_trans h (by decide)
  · exact h.2⟩

instance : Coe Char CodePoint := ⟨ofChar⟩

/-- The number of a character is that of its code point. -/
@[simp] theorem toNat_ofChar (c : Char) : (ofChar c).toNat = c.toNat := rfl

/-- Characters are known by their code points. -/
@[simp] theorem ofChar_inj {c d : Char} : ofChar c = ofChar d ↔ c = d := by
  rw [ext_iff, toNat_ofChar, toNat_ofChar]
  exact ⟨fun h => Char.ext (UInt32.toNat_inj.1 h), fun h => h ▸ rfl⟩

/-- Whether a code point is the first half of a pair of surrogates. -/
def isHigh (c : CodePoint) : Bool := 0xd800 ≤ c.toNat && c.toNat < 0xdc00

/-- Whether a code point is the second half of a pair of surrogates. -/
def isLow (c : CodePoint) : Bool := 0xdc00 ≤ c.toNat && c.toNat < 0xe000

/-- Whether a code point is a surrogate. -/
def isSurrogate (c : CodePoint) : Bool := c.isHigh || c.isLow

/-- Surrogates are the code points from `0xd800` to `0xdfff`. -/
theorem isSurrogate_iff {c : CodePoint} :
    c.isSurrogate = true ↔ 0xd800 ≤ c.toNat ∧ c.toNat < 0xe000 := by
  simp only [isSurrogate, isHigh, isLow, Bool.or_eq_true, Bool.and_eq_true, decide_eq_true_eq]
  omega

/-- The character of a code point; a surrogate is shown by the replacement character. -/
def toChar (c : CodePoint) : Char := if c.isSurrogate then '\ufffd' else Char.ofNat c.toNat

/-- A code point that is no surrogate has the number of its character. -/
theorem toNat_toChar {c : CodePoint} (h : c.isSurrogate = false) : c.toChar.toNat = c.toNat := by
  rw [toChar, h]
  rw [← Bool.not_eq_true, isSurrogate_iff] at h
  have hlt := c.isLt
  have hvalid : c.toNat.isValidChar := by unfold Nat.isValidChar; omega
  rw [if_neg Bool.false_ne_true, Char.ofNat, dif_pos hvalid]
  rfl

/-- No character is a surrogate. -/
theorem isSurrogate_ofChar (c : Char) : (ofChar c).isSurrogate = false := by
  rw [← Bool.not_eq_true, isSurrogate_iff, toNat_ofChar]
  rcases c.valid with h | h
  · exact fun h' => absurd (show c.toNat < 0xd800 from h) (Nat.not_lt.2 h'.1)
  · exact fun h' => absurd (show 0xdfff < c.toNat from h.1) (by omega)

/-- A character is that of its code point. -/
@[simp] theorem toChar_ofChar (c : Char) : (ofChar c).toChar = c := by
  rw [toChar, isSurrogate_ofChar]
  exact Char.ofNat_toNat c

instance : LT CodePoint := ⟨fun c d => c.toNat < d.toNat⟩

instance (c d : CodePoint) : Decidable (c < d) := inferInstanceAs (Decidable (c.toNat < d.toNat))

instance : Std.Irrefl (α := CodePoint) (· < ·) := ⟨fun c => Nat.lt_irrefl c.toNat⟩

instance : Std.Asymm (α := CodePoint) (· < ·) := ⟨fun _ _ h => Nat.lt_asymm h⟩

instance : Trans (α := CodePoint) (· < ·) (· < ·) (· < ·) := ⟨fun h h' => Nat.lt_trans h h'⟩

instance : Std.Trichotomous (α := CodePoint) (· < ·) :=
  ⟨fun _ _ h h' => ext (Nat.le_antisymm (Nat.not_lt.1 h') (Nat.not_lt.1 h))⟩

end CodePoint

/-- A text. -/
structure Text where
  /-- The code points, first to last. -/
  points : List CodePoint
deriving DecidableEq

namespace Text

/-- The text of characters. -/
def ofChars (l : List Char) : Text := ⟨l.map CodePoint.ofChar⟩

/-- The text of a string. -/
def ofString (s : String) : Text := ofChars s.toList

instance : Coe String Text := ⟨ofString⟩

instance : Inhabited Text := ⟨""⟩

/-- A text is known by its code points. -/
theorem ext {s t : Text} (h : s.points = t.points) : s = t := by
  cases s; cases t; cases h; rfl

/-- A list of characters is known by its text. -/
theorem ofChars_inj {l m : List Char} : ofChars l = ofChars m ↔ l = m :=
  ⟨fun h => (List.map_inj_right fun _ _ => CodePoint.ofChar_inj.1).1 (congrArg points h),
    fun h => h ▸ rfl⟩

/-- A string is known by its text. -/
@[simp] theorem ofString_inj {s t : String} : ofString s = ofString t ↔ s = t := by
  rw [ofString, ofString, ofChars_inj, String.toList_inj]

/-- Strings are compared as their texts are. -/
@[simp] theorem ofString_beq (s t : String) : (ofString s == ofString t) = (s == t) := by
  rw [Bool.eq_iff_iff, beq_iff_eq, beq_iff_eq, ofString_inj]

/-- The text of a code point. -/
def singleton (c : CodePoint) : Text := ⟨[c]⟩

/-- One text behind another. -/
def append (s t : Text) : Text := ⟨s.points ++ t.points⟩

instance : Append Text := ⟨append⟩

/-- Joined texts have the code points of the first and then of the second. -/
theorem points_append (s t : Text) : (s ++ t).points = s.points ++ t.points := rfl

/-- Strings are joined as their texts are. -/
theorem ofString_append (s t : String) : ofString (s ++ t) = ofString s ++ ofString t := by
  refine ext ?_
  simp [ofString, ofChars, points_append]

/-- The number of code points. -/
def length (s : Text) : Nat := s.points.length

/-- Texts in one, with a separator between them. -/
def intercalate (separator : Text) (l : List Text) : Text :=
  ⟨(l.map points).intersperse separator.points |>.flatten⟩

/-- Whether a text holds no surrogate, so that it is the text of a string. -/
def isUnicode (s : Text) : Bool := s.points.all fun c => !c.isSurrogate

/-- A text of characters holds no surrogates. -/
theorem isUnicode_ofChars (l : List Char) : (ofChars l).isUnicode = true := by
  simp [isUnicode, ofChars, CodePoint.isSurrogate_ofChar]

/-- The text of a string holds no surrogates. -/
theorem isUnicode_ofString (s : String) : (ofString s).isUnicode = true := isUnicode_ofChars _

/-- The characters of a text. -/
def chars (s : Text) : List Char := s.points.map CodePoint.toChar

/-- The characters of the text of a string are those of the string. -/
@[simp] theorem chars_ofString (s : String) : (ofString s).chars = s.toList := by
  simp [chars, ofString, ofChars, Function.comp_def]

/-- The string whose text this is, if it holds no surrogate. -/
def string? (s : Text) : Option String := if s.isUnicode then some (String.ofList s.chars) else none

/-- The text of a string is read as that string. -/
@[simp] theorem string?_ofString (s : String) : (ofString s).string? = some s := by
  simp [string?, isUnicode_ofString]

/-! ### The order of texts -/

instance : LT Text := ⟨fun s t => s.points < t.points⟩

instance : LE Text := ⟨fun s t => s.points ≤ t.points⟩

instance (s t : Text) : Decidable (s < t) := inferInstanceAs (Decidable (s.points < t.points))

instance (s t : Text) : Decidable (s ≤ t) := inferInstanceAs (Decidable (s.points ≤ t.points))

/-- No text is before itself. -/
theorem lt_irrefl (s : Text) : ¬ s < s := List.lt_irrefl s.points

/-- What is before a text that is before a third one is before that one. -/
theorem lt_trans {s t u : Text} (h : s < t) (h' : t < u) : s < u := List.lt_trans h h'

/-- A text is not before another one exactly if that is before it or the same. -/
theorem not_lt {s t : Text} : ¬ s < t ↔ t ≤ s := Iff.rfl

/-- A text is at most itself. -/
theorem le_refl (s : Text) : s ≤ s := lt_irrefl s

/-- Of two texts, one is at most the other. -/
theorem le_total (s t : Text) : s ≤ t ∨ t ≤ s := List.le_total s.points t.points

/-- Texts that are at most each other are the same. -/
theorem le_antisymm {s t : Text} (h : s ≤ t) (h' : t ≤ s) : s = t := ext (List.le_antisymm h h')

/-- What is at most a text that is at most a third one is at most that one. -/
theorem le_trans {s t u : Text} (h : s ≤ t) (h' : t ≤ u) : s ≤ u := fun hlt => by
  by_cases htu : t < u
  · exact h (lt_trans htu hlt)
  · exact h (le_antisymm h' (not_lt.1 htu) ▸ hlt)

end Text

end Gatehouse
