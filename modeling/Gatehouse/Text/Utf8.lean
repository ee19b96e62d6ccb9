import Gatehouse.Text

/-!
# Bytes of texts

What is digested, and what fills a limited space, are the bytes of a text in UTF-8.  A surrogate
has no bytes there: whoever encodes a text looks for surrogates first (`Text.surrogates?`).  Here
it is written like any other code point of its size, so that every text has bytes; those of a text
without surrogates are the bytes of its string (`Text.utf8_ofString`).
-/

namespace Gatehouse

/-- The bytes of a code point. -/
def CodePoint.utf8 (c : CodePoint) : List UInt8 :=
  let n := c.toNat
  if n ≤ 0x7f then [.ofNat n]
  else if n ≤ 0x7ff then [.ofNat (n / 64 % 0x20 + 0xc0), .ofNat (n % 0x40 + 0x80)]
  else if n ≤ 0xffff then
    [.ofNat (n / 4096 % 0x10 + 0xe0), .ofNat (n / 64 % 0x40 + 0x80), .ofNat (n % 0x40 + 0x80)]
  else
    [.ofNat (n / 262144 % 0x08 + 0xf0), .ofNat (n / 4096 % 0x40 + 0x80),
      .ofNat (n / 64 % 0x40 + 0x80), .ofNat (n % 0x40 + 0x80)]

/-- The number of bytes of a code point. -/
def CodePoint.utf8Size (c : CodePoint) : Nat := c.utf8.length

namespace Text

/-- The bytes of a text. -/
def utf8 (s : Text) : List UInt8 := s.points.flatMap CodePoint.utf8

/-- The bytes of a text without surrogates are those of its string. -/
theorem utf8_ofString (s : String) : (ofString s).utf8 = s.toUTF8.data.toList := by
  have h : s.toUTF8 = s.toList.utf8Encode := (String.utf8Encode_toList).symm
  rw [h, List.utf8Encode, List.data_toByteArray]
  simp only [utf8, ofString, ofChars, List.flatMap_map]
  rfl

/-- Where the first surrogates of a text stand, those next to each other taken together: the place
of the first one, and the place behind the last one. -/
def surrogates? (s : Text) : Option (Nat × Nat) :=
  (s.points.findIdx? CodePoint.isSurrogate).map fun first =>
    (first, first + ((s.points.drop first).takeWhile CodePoint.isSurrogate).length)

/-- Nothing stands in the way of encoding a text exactly if it holds no surrogate. -/
theorem surrogates?_eq_none_iff {s : Text} : s.surrogates? = none ↔ s.isUnicode = true := by
  simp [surrogates?, isUnicode]

end Text

end Gatehouse
