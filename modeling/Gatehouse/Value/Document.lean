import Gatehouse.Text.Canonical
import Gatehouse.Value.Normal

/-!
# Data as a document

Data of any shape can be part of a document to digest.  A text is the document of that text
(`Value.document_text`); the members of a record are put in order.
-/

namespace Gatehouse.Value

/-- The word for a double. -/
def realWord (x : Float) : String :=
  if x.isInf then (if x < 0.0 then "-Infinity" else "Infinity")
  else if x.isNaN then "NaN"
  else Decimal.ofFloat x

mutual

/-- A piece of data as a document. -/
def document : Value → Text.Document
  | .null => .word "null"
  | .bool b => .word (toString b)
  | .int n => .word (toString n)
  | .real x => .word (realWord x)
  | .text s => .text s
  | .list items => .array (itemDocuments items)
  | .object members => .object (NameMap.ofList (memberDocuments members)).entries

/-- Items as documents. -/
def itemDocuments : List Value → List Text.Document
  | [] => []
  | v :: rest => document v :: itemDocuments rest

/-- Members as documents. -/
def memberDocuments : List (Text × Value) → List (Text × Text.Document)
  | [] => []
  | (key, v) :: rest => (key, document v) :: memberDocuments rest

end

/-- A text is the document of that text. -/
theorem document_text (s : Text) : document (.text s) = .text s := rfl

example : (document (.list [.null, .bool true, .real 1.5, .text "a"])).render =
    "[null, true, 1.5, \"a\"]" := by decide +kernel

end Gatehouse.Value
