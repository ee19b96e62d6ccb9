import Gatehouse.Decimal.Shortest
import Gatehouse.Text.Quoted

/-!
# Data of any shape

Names offered by a caller, values kept in a cache, and answers of a collaborator may be data of any
shape.  `Value` is that data; `Value.literal` is how a message shows it, and `Value.display` how it
is shown as the text of a failure, where a text stands for itself.  Equality of values is decidable.
-/

namespace Gatehouse

/-- Data of any shape. -/
inductive Value where
  /-- The absent value. -/
  | null
  /-- A truth value. -/
  | bool (b : Bool)
  /-- A whole number. -/
  | int (n : Int)
  /-- A number written with a fraction or an exponent. -/
  | real (x : Float)
  /-- A text. -/
  | text (s : Text)
  /-- A sequence. -/
  | list (items : List Value)
  /-- A record, with its members in order. -/
  | object (members : List (Text × Value))

namespace Value

instance : Inhabited Value := ⟨.null⟩

/-- A text is data. -/
instance : Coe Text Value := ⟨.text⟩

mutual

/-- Decides equality of two values. -/
def decEq : (a b : Value) → Decidable (a = b)
  | .null, .null => .isTrue rfl
  | .bool a, .bool b => decidable_of_iff (a = b) (by simp)
  | .int a, .int b => decidable_of_iff (a = b) (by simp)
  | .real a, .real b => decidable_of_iff (a = b) (by simp)
  | .text a, .text b => decidable_of_iff (a = b) (by simp)
  | .list a, .list b => @decidable_of_iff _ (a = b) (by simp) (decEqItems a b)
  | .object a, .object b => @decidable_of_iff _ (a = b) (by simp) (decEqMembers a b)
  | .null, .bool _ | .null, .int _ | .null, .real _ | .null, .text _ | .null, .list _
  | .null, .object _ | .bool _, .null | .bool _, .int _ | .bool _, .real _ | .bool _, .text _
  | .bool _, .list _ | .bool _, .object _ | .int _, .null | .int _, .bool _ | .int _, .real _
  | .int _, .text _ | .int _, .list _ | .int _, .object _ | .real _, .null | .real _, .bool _
  | .real _, .int _ | .real _, .text _ | .real _, .list _ | .real _, .object _ | .text _, .null
  | .text _, .bool _ | .text _, .int _ | .text _, .real _ | .text _, .list _ | .text _, .object _
  | .list _, .null | .list _, .bool _ | .list _, .int _ | .list _, .real _ | .list _, .text _
  | .list _, .object _ | .object _, .null | .object _, .bool _ | .object _, .int _
  | .object _, .real _ | .object _, .text _ | .object _, .list _ => .isFalse nofun

/-- Decides equality of two sequences of values. -/
def decEqItems : (a b : List Value) → Decidable (a = b)
  | [], [] => .isTrue rfl
  | [], _ :: _ => .isFalse nofun
  | _ :: _, [] => .isFalse nofun
  | a :: as, b :: bs =>
    match decEq a b, decEqItems as bs with
    | .isTrue h, .isTrue h' => .isTrue (by rw [h, h'])
    | .isFalse h, _ => .isFalse fun e => h (List.cons.inj e).1
    | _, .isFalse h => .isFalse fun e => h (List.cons.inj e).2

/-- Decides equality of two lists of members. -/
def decEqMembers : (a b : List (Text × Value)) → Decidable (a = b)
  | [], [] => .isTrue rfl
  | [], _ :: _ => .isFalse nofun
  | _ :: _, [] => .isFalse nofun
  | (k, a) :: as, (l, b) :: bs =>
    match decEq a b, decEqMembers as bs with
    | .isTrue h, .isTrue h' =>
      if hk : k = l then .isTrue (by rw [h, h', hk])
      else .isFalse fun e => hk (Prod.mk.inj (List.cons.inj e).1).1
    | .isFalse h, _ => .isFalse fun e => h (Prod.mk.inj (List.cons.inj e).1).2
    | _, .isFalse h => .isFalse fun e => h (List.cons.inj e).2

end

instance : DecidableEq Value := decEq

/-- The member of a record under a key. -/
def field? : Value → Text → Option Value
  | .object members, key => members.lookup key
  | _, _ => none

/-- The text that a value is, if it is one. -/
def text? : Value → Option Text
  | .text s => some s
  | _ => none

/-- Whether a value is a sequence or a record. -/
def isNested : Value → Bool
  | .list _ | .object _ => true
  | _ => false

mutual

/-- How a message shows a value. -/
def literal : Value → Text
  | .null => "None"
  | .bool true => "True"
  | .bool false => "False"
  | .int n => toString n
  | .real x => Decimal.ofFloat x
  | .text s => Text.quoted s
  | .list items => "[" ++ literalItems items ++ "]"
  | .object members => "\x7b" ++ literalMembers members ++ "\x7d"

/-- The items of a shown sequence. -/
def literalItems : List Value → Text
  | [] => ""
  | [v] => literal v
  | v :: rest => literal v ++ ", " ++ literalItems rest

/-- The members of a shown record. -/
def literalMembers : List (Text × Value) → Text
  | [] => ""
  | [(key, v)] => Text.quoted key ++ ": " ++ literal v
  | (key, v) :: rest => Text.quoted key ++ ": " ++ literal v ++ ", " ++ literalMembers rest

end

/-- The text of a value: a text stands for itself, all else is shown. -/
def display : Value → Text
  | .text s => s
  | v => literal v

/-- The items of a sequence; other data has none. -/
def items : Value → List Value
  | .list items => items
  | _ => []

/-- The members of a record; other data has none. -/
def members : Value → List (Text × Value)
  | .object members => members
  | _ => []

/-- What one gets by going through a value: the code points of a text, the items of a sequence, the
names of a record's members.  Other data cannot be gone through. -/
def elements? : Value → Option (List Value)
  | .text s => some (s.points.map fun c => .text (Text.singleton c))
  | .list items => some items
  | .object members => some (members.map fun e => .text e.1)
  | _ => none

/-- The name of a value's shape. -/
def shapeName : Value → Text
  | .null => "NoneType"
  | .bool _ => "bool"
  | .int _ => "int"
  | .real _ => "float"
  | .text _ => "str"
  | .list _ => "list"
  | .object _ => "dict"

example : (Value.list [.null, .bool true, .int (-7), .text "it's"]).literal =
    "[None, True, -7, \"it's\"]" := by decide +kernel

end Value

end Gatehouse
