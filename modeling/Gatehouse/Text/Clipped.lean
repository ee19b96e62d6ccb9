import Gatehouse.Text.Utf8

/-!
# Clipped texts

How a long text is shown in a limited space: its beginning and its end, as far as whole characters
fit, around three dots.  Space is counted in bytes of UTF-8.  Main statement: what is taken of a
text fits in its space (`Text.size_takeBytes_le`).
-/

namespace Gatehouse.Text

/-- The number of bytes of a text. -/
def byteCount : List CodePoint → Nat
  | [] => 0
  | c :: rest => c.utf8Size + byteCount rest

/-- The longest beginning of a text in a number of bytes. -/
def takeBytes : Nat → List CodePoint → List CodePoint
  | _, [] => []
  | space, c :: rest =>
    if c.utf8Size ≤ space then c :: takeBytes (space - c.utf8Size) rest else []

/-- What is taken fits into the space. -/
theorem size_takeBytes_le (space : Nat) (l : List CodePoint) :
    byteCount (takeBytes space l) ≤ space := by
  induction l generalizing space with
  | nil => simp [takeBytes, byteCount]
  | cons c rest ih =>
    unfold takeBytes
    split
    · have := ih (space - c.utf8Size)
      unfold byteCount
      omega
    · simp [byteCount]

/-- A text of at most `limit` bytes as it is.  Of a longer one the halves of the limit are filled
from both ends, the larger half from the beginning, less a byte at the end. -/
def clipped (limit : Nat) (s : Text) : Text :=
  let l := s.points
  if byteCount l ≤ limit then s
  else
    let half := (limit + 1) / 2
    mk (takeBytes half l) ++ "..." ++ mk (takeBytes (half - 1) l.reverse).reverse

end Gatehouse.Text
