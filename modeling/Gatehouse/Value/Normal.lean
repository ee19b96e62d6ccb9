import Gatehouse.Collections.Named
import Gatehouse.Value

/-!
# Data that counts as equal

Two pieces of data count as equal if they differ only in how a number is written, a truth value
being a number too, and in the order of the members of records.  `Value.normal` is what such data
have in common.  Data that counts as nothing (`Value.isVacant`) is the absent value, falsehood,
zero, and whatever is empty.
-/

namespace Gatehouse.Value

mutual

/-- A value with its numbers written in one way and its members in order. -/
def normal : Value → Value
  | .null => .null
  | .bool b => .int (if b then 1 else 0)
  | .int n => .int n
  | .real x =>
    match Decimal.whole? x with
    | some n => .int n
    | none => .real x
  | .text s => .text s
  | .list items => .list (normalItems items)
  | .object members => .object (NameMap.ofList (normalMembers members)).entries

/-- Items with their numbers written in one way and their members in order. -/
def normalItems : List Value → List Value
  | [] => []
  | v :: rest => normal v :: normalItems rest

/-- Members whose values have their numbers written in one way and their members in order. -/
def normalMembers : List (Text × Value) → List (Text × Value)
  | [] => []
  | (key, v) :: rest => (key, normal v) :: normalMembers rest

end

/-- Whether two values count as equal. -/
def same (v w : Value) : Bool := decide (v.normal = w.normal)

/-- Data is the same as itself. -/
theorem same_self (v : Value) : same v v = true := by simp [same]

/-- A text counts as equal to nothing but itself. -/
theorem text_eq_of_same {v : Value} {s : Text} (h : same v (.text s) = true) : v = .text s := by
  have h := of_decide_eq_true h
  cases v with
  | text t => simpa [normal] using h
  | real x =>
    rw [normal] at h
    split at h <;> simp [normal] at h
  | _ => simp [normal] at h

/-- Being the same is mutual. -/
theorem same_comm (v w : Value) : same v w = same w v := by simp [same, eq_comm]

/-- The values of a list, each of those that count as equal once, where the first of them stands. -/
def distinct : List Value → List Value
  | [] => []
  | v :: rest => v :: (distinct rest).filter fun w => !same v w

/-- Dropping repetitions neither adds nor drops a text. -/
theorem mem_distinct_text {s : Text} {l : List Value} :
    .text s ∈ distinct l ↔ .text s ∈ l := by
  induction l with
  | nil => simp [distinct]
  | cons v rest ih =>
    simp only [distinct, List.mem_cons, List.mem_filter, ih]
    constructor
    · rintro (h | ⟨h, -⟩)
      · exact .inl h
      · exact .inr h
    · intro h
      by_cases hv : same v (.text s) = true
      · exact .inl (text_eq_of_same hv).symm
      · rcases h with h | h
        · exact .inl h
        · exact .inr ⟨h, by simpa using hv⟩

/-- Whether a value counts as equal to a member of a list. -/
def among (v : Value) (l : List Value) : Bool := l.any (same v)

/-- Among texts is a text exactly if it is one of them. -/
theorem among_texts (s : Text) (l : List Text) :
    among (.text s) (l.map .text) = l.contains s := by
  induction l with
  | nil => rfl
  | cons t rest ih =>
    simp only [among, List.map_cons, List.any_cons, List.contains_cons] at ih ⊢
    rw [ih]
    simp [same, normal, BEq.beq]

/-- Whether two lists have the same members. -/
def sameMembers (l l' : List Value) : Bool := l.all (·.among l') && l'.all (·.among l)

/-- A list has the same members as itself. -/
theorem sameMembers_self (l : List Value) : sameMembers l l = true := by
  simp only [sameMembers, Bool.and_self, List.all_eq_true, among, List.any_eq_true]
  exact fun v hv => ⟨v, hv, same_self v⟩

/-- Whether a value counts as nothing. -/
def isVacant : Value → Bool
  | .null => true
  | .bool b => !b
  | .int n => n == 0
  | .real x => x == 0.0
  | .text s => s == ""
  | .list items => items.isEmpty
  | .object members => members.isEmpty

/-- A text counts as nothing exactly if it is empty. -/
theorem isVacant_text (s : Text) : isVacant (.text s) = true ↔ s = "" := by simp [isVacant]

example : same (.list [.bool true, .real 2.0]) (.list [.int 1, .int 2]) = true := by decide +kernel

end Gatehouse.Value
