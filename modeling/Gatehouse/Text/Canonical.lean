import Gatehouse.Text.Hex
import Gatehouse.Text.Utf16

/-!
# The canonical text of a document

What is digested is the text of a small document: names, arrays and objects, and words for numbers
and the like.  The text has one space after each comma and colon, is pure ASCII, and writes every
character of a name outside the printable ASCII range as an escape of its UTF-16 units.  Members of
an object are written in the order given; whoever builds a document puts them in increasing order of
their keys, so that equal contents have equal texts.
-/

namespace Gatehouse.Text

/-- A document to digest. -/
inductive Document where
  /-- A text. -/
  | text (value : Text)
  /-- A number or another word, which stands without quotes. -/
  | word (word : String)
  /-- An array. -/
  | array (items : List Document)
  /-- An object, with its members in order. -/
  | object (members : List (Text × Document))

/-- The escape of a unit of UTF-16. -/
def unitEscape (n : Nat) : List Char := '\\' :: 'u' :: hexDigits 4 n

/-- One unit of UTF-16 between the quotes. -/
def escapedUnit (c : CodePoint) : List Char :=
  if c = '\x22' then ['\\', '\x22']
  else if c = '\\' then ['\\', '\\']
  else if c = '\n' then ['\\', 'n']
  else if c = '\r' then ['\\', 'r']
  else if c = '\t' then ['\\', 't']
  else if c.toNat = 0x0c then ['\\', 'f']
  else if c.toNat = 0x08 then ['\\', 'b']
  else if 0x20 ≤ c.toNat ∧ c.toNat < 0x7f then [c.toChar]
  else unitEscape c.toNat

/-- A text in double quotes. -/
def escapedChars (l : List CodePoint) : List Char :=
  '\x22' :: (l.flatMap CodePoint.split).flatMap escapedUnit ++ ['\x22']

namespace Document

mutual

/-- The characters of a document. -/
def chars : Document → List Char
  | .text s => escapedChars s.points
  | .word w => w.toList
  | .array items => '[' :: itemsChars items ++ [']']
  | .object members => '\x7b' :: membersChars members ++ ['\x7d']

/-- The characters of array items, separated. -/
def itemsChars : List Document → List Char
  | [] => []
  | [d] => d.chars
  | d :: rest => d.chars ++ [',', ' '] ++ itemsChars rest

/-- The characters of object members, separated. -/
def membersChars : List (Text × Document) → List Char
  | [] => []
  | [(key, d)] => escapedChars key.points ++ [':', ' '] ++ d.chars
  | (key, d) :: rest =>
    escapedChars key.points ++ [':', ' '] ++ d.chars ++ [',', ' '] ++ membersChars rest

end

/-- The canonical text of a document. -/
def render (d : Document) : Text := ofChars d.chars

/-- An array of texts. -/
def texts (names : List Text) : Document := .array (names.map .text)

end Document

end Gatehouse.Text
