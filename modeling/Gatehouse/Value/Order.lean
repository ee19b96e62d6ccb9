import Gatehouse.Collections.MergeSort
import Gatehouse.Value.Normal

/-!
# Data in order

Numbers are compared by their size, texts by their characters, and sequences by the first items that
differ; data of other shapes, or of two different shapes, cannot be compared.  `Value.sort` puts
data in increasing order, and reports the first two pieces of data that it cannot compare.  Texts
can always be put in order (`Value.sort_texts`).
-/

namespace Gatehouse

/-- The shapes of two pieces of data that cannot be compared. -/
structure Incomparable where
  /-- The shape of what was to be the lesser. -/
  left : Text
  /-- The shape of what was to be the greater. -/
  right : Text
deriving DecidableEq

namespace Value

/-- A number: a whole one, or a double. -/
inductive Number where
  /-- A whole number. -/
  | whole (n : Int)
  /-- A double. -/
  | real (x : Float)

/-- The number that a piece of data is; a truth value is one too. -/
def number? : Value → Option Number
  | .bool b => some (.whole (if b then 1 else 0))
  | .int n => some (.whole n)
  | .real x => some (.real x)
  | _ => none

/-- Whether a number is less than another one, in exact arithmetic. -/
def Number.less : Number → Number → Bool
  | .whole m, .whole n => decide (m < n)
  | .real x, .real y => decide (x < y)
  | .whole n, .real x =>
    match Decimal.whole? x.ceil with
    | some c => decide (n < c)
    | none => decide (0.0 < x)
  | .real x, .whole n =>
    match Decimal.whole? x.floor with
    | some f => decide (f < n)
    | none => decide (x < 0.0)

/-- Whether data that is no sequence is less than other data. -/
def lessScalar (v w : Value) : Except Incomparable Bool :=
  match v, w with
  | .text s, .text t => .ok (decide (s < t))
  | v, w =>
    match v.number?, w.number? with
    | some m, some n => .ok (m.less n)
    | _, _ => .error ⟨v.shapeName, w.shapeName⟩

mutual

/-- Whether a piece of data is less than another one. -/
def less : Value → Value → Except Incomparable Bool
  | .list a, .list b => lessItems a b
  | v, w => lessScalar v w

/-- Whether items are less than other items: the first that differ decide, else the number of
them. -/
def lessItems : List Value → List Value → Except Incomparable Bool
  | _, [] => .ok false
  | [], _ :: _ => .ok true
  | v :: rest, w :: more => if same v w then lessItems rest more else less v w

end

/-- The texts that data consists of, if it does. -/
def allTexts? (l : List Value) : Option (List Text) := l.mapM text?

/-- Data in increasing order. -/
def sort (l : List Value) : Except Incomparable (List Value) :=
  match allTexts? l with
  | some names => .ok ((sortNames names).map .text)
  | none => MergeSort.sort less l

/-- A list of texts is read as these. -/
theorem allTexts?_texts (names : List Text) : allTexts? (names.map .text) = some names := by
  unfold allTexts?
  induction names with
  | nil => rfl
  | cons s rest ih => simp [text?, ih]

/-- Texts can always be put in order. -/
theorem sort_texts (names : List Text) :
    sort (names.map .text) = .ok ((sortNames names).map .text) := by
  simp [sort, allTexts?_texts]

example : (sort [.int 10, .int 9, .bool true, .int 100]).toOption =
    some [.bool true, .int 9, .int 10, .int 100] := by cbv

end Value

end Gatehouse
