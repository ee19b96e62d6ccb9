import Gatehouse.Text

/-!
# Blank characters

The characters that count as white space at the ends of a name or of a secret: the controls from
tab to carriage return, the four information separators, next line, and the space separators, line
separator and paragraph separator of Unicode.  A name of blanks alone is no name.
-/

namespace Gatehouse.Text

/-- Whether a character is white space. -/
def isBlank (c : CodePoint) : Bool :=
  let n := c.toNat
  (0x09 ≤ n && n ≤ 0x0d) || (0x1c ≤ n && n ≤ 0x20) || n == 0x85 || n == 0xa0 || n == 0x1680 ||
    (0x2000 ≤ n && n ≤ 0x200a) || n == 0x2028 || n == 0x2029 || n == 0x202f || n == 0x205f ||
    n == 0x3000

/-- The code points without the blanks at both ends. -/
def stripPoints (l : List CodePoint) : List CodePoint :=
  ((l.dropWhile isBlank).reverse.dropWhile isBlank).reverse

/-- The text without the blanks at both ends. -/
def strip (s : Text) : Text := ⟨stripPoints s.points⟩

/-- Whether a text holds blanks only. -/
def allBlank (s : Text) : Bool := s.points.all isBlank

/-- Whitespace is blank. -/
theorem isBlank_of_isWhitespace {c : Char} (h : c.isWhitespace = true) : isBlank c = true := by
  simp only [Char.isWhitespace, Bool.or_eq_true, decide_eq_true_eq] at h
  rcases h with ((rfl | rfl) | rfl) | rfl <;> decide

end Gatehouse.Text
