import Gatehouse.Text.Hex
import Gatehouse.Text.Printable

/-!
# Quoted names

How a message quotes a text: between single quotes, or between double quotes if the text holds a
single quote and no double quote.  The delimiter and the backslash are escaped with a backslash,
tab, line feed and carriage return have their short escapes, and every other character that is not
printable is written by its code point in the shortest of three widths.
-/

namespace Gatehouse.Text

/-- The delimiter of a quoted text. -/
def quoteMark (l : List CodePoint) : Char :=
  if l.contains '\x27' && !l.contains '\x22' then '\x22' else '\x27'

/-- One code point between the delimiters `mark`. -/
def quotedChar (mark : Char) (c : CodePoint) : List Char :=
  if c = mark || c = '\\' then ['\\', c.toChar]
  else if c = '\t' then ['\\', 't']
  else if c = '\n' then ['\\', 'n']
  else if c = '\r' then ['\\', 'r']
  else if isPrintable c then [c.toChar]
  else if c.toNat ≤ 0xff then ['\\', 'x'] ++ hexDigits 2 c.toNat
  else if c.toNat ≤ 0xffff then ['\\', 'u'] ++ hexDigits 4 c.toNat
  else ['\\', 'U'] ++ hexDigits 8 c.toNat

/-- A text between its delimiters. -/
def quotedChars (l : List CodePoint) : List Char :=
  quoteMark l :: l.flatMap (quotedChar (quoteMark l)) ++ [quoteMark l]

/-- A text between its delimiters. -/
def quoted (s : Text) : Text := ofChars (quotedChars s.points)

/-- Texts in square brackets, each quoted. -/
def quotedList (names : List Text) : Text :=
  "[" ++ intercalate ", " (names.map quoted) ++ "]"

/-- A lone single quote makes the delimiters double. -/
example : quotedChars ['i', '\x27', 's'] = ['\x22', 'i', '\x27', 's', '\x22'] := by decide +kernel

end Gatehouse.Text
