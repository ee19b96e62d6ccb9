import Gatehouse.Text

/-!
# Units of UTF-16

A code point above `0xffff` is written in UTF-16 as a pair of surrogates, a high one and a low one.
Every other code point is one unit, the surrogates among them: in units a pair and the code point
that it stands for look the same.
-/

namespace Gatehouse.CodePoint

/-- The high surrogate in the pair of a code point above `0xffff`. -/
def high (c : CodePoint) : CodePoint :=
  ⟨0xd800 + (c.toNat - 0x10000) / 0x400, by have := c.isLt; omega⟩

/-- The low surrogate in the pair of a code point above `0xffff`. -/
def low (c : CodePoint) : CodePoint := ⟨0xdc00 + (c.toNat - 0x10000) % 0x400, by omega⟩

/-- A code point in units of UTF-16: itself, or its pair of surrogates. -/
def split (c : CodePoint) : List CodePoint :=
  if c.toNat < 0x10000 then [c] else [c.high, c.low]

end Gatehouse.CodePoint
