import Gatehouse.Value

/-!
# Reports of invalid data

Checking data of unknown shape collects every fault that it finds.  An `Issue` is one of them: where
it is, what kind of fault it is, and what was found there.  A `Report` names the shape that was
expected and lists the issues in the order of the fields.
-/

namespace Gatehouse.Validation

/-- One step on the way to a piece of data. -/
inductive Step where
  /-- Into the member of a record. -/
  | field (name : Text)
  /-- Into the item of a sequence. -/
  | item (index : Nat)
deriving DecidableEq

/-- What is wrong with a piece of data. -/
inductive Complaint where
  /-- A required field is absent. -/
  | missing
  /-- Not a text. -/
  | notText
  /-- A text with surrogates where characters are required. -/
  | notUnicode
  /-- An empty text where one character is required. -/
  | emptyText
  /-- Not a sequence of distinct items. -/
  | notSet
  /-- Not a sequence. -/
  | notSequence
  /-- Not a record of the named shape. -/
  | notRecord (shape : Text)
  /-- Not a truth value. -/
  | notBool
  /-- A text or number that stands for no truth value. -/
  | unreadBool
  /-- Not a number. -/
  | notNumber
  /-- A text that is no number. -/
  | unreadNumber
  /-- Not a whole number. -/
  | notInteger
  /-- A text that is no whole number. -/
  | unreadInteger
  /-- A number with a fraction where a whole one is required. -/
  | fractional
  /-- A whole number of a size that is not admitted. -/
  | oversized
  /-- An infinite number, or none, where a whole one is required. -/
  | notFinite
  /-- Below the least admitted value. -/
  | below (bound : Nat)
  /-- Not an instance of the named type. -/
  | notInstance (type : Text)
  /-- Part of something that cannot change. -/
  | frozen
deriving DecidableEq

/-- The stable name of a complaint. -/
def Complaint.tag : Complaint → Text
  | missing => "missing"
  | notText => "string_type"
  | notUnicode => "string_unicode"
  | emptyText => "string_too_short"
  | notSet => "frozen_set_type"
  | notSequence => "tuple_type"
  | notRecord _ => "model_type"
  | notBool => "bool_type"
  | unreadBool => "bool_parsing"
  | notNumber => "float_type"
  | unreadNumber => "float_parsing"
  | notInteger => "int_type"
  | unreadInteger => "int_parsing"
  | fractional => "int_from_float"
  | oversized => "int_parsing_size"
  | notFinite => "finite_number"
  | below _ => "greater_than_equal"
  | notInstance _ => "is_instance_of"
  | frozen => "frozen_instance"

/-- The wording of a complaint. -/
def Complaint.message : Complaint → Text
  | missing => "Field required"
  | notText => "Input should be a valid string"
  | notUnicode => "Input should be a valid string, unable to parse raw data as a unicode string"
  | emptyText => "String should have at least 1 character"
  | notSet => "Input should be a valid frozenset"
  | notSequence => "Input should be a valid tuple"
  | notRecord shape => "Input should be a valid dictionary or instance of " ++ shape
  | notBool => "Input should be a valid boolean"
  | unreadBool => "Input should be a valid boolean, unable to interpret input"
  | notNumber => "Input should be a valid number"
  | unreadNumber => "Input should be a valid number, unable to parse string as a number"
  | notInteger => "Input should be a valid integer"
  | unreadInteger => "Input should be a valid integer, unable to parse string as an integer"
  | fractional => "Input should be a valid integer, got a number with a fractional part"
  | oversized => "Unable to parse input string as an integer, exceeded maximum size"
  | notFinite => "Input should be a finite number"
  | below bound => "Input should be greater than or equal to " ++ toString bound
  | notInstance type => "Input should be an instance of " ++ type
  | frozen => "Instance is frozen"

/-- A complaint and where it arose, outermost step first. -/
structure Issue where
  /-- The way to the piece of data. -/
  path : List Step
  /-- What is wrong with it. -/
  complaint : Complaint
  /-- The piece of data, or the record that lacks it; absent for a thing that is no data. -/
  found : Option Value
deriving DecidableEq

/-- The issue seen from one step further out. -/
def Issue.under (step : Step) (issue : Issue) : Issue :=
  { issue with path := step :: issue.path }

/-- The issues of data that should have had a shape. -/
structure Report where
  /-- The expected shape. -/
  title : Text
  /-- What was found, in order. -/
  issues : List Issue
  /-- Where whoever raised the report says more about complaints, one page for each kind; absent if
  nobody does. -/
  guide : Option Text
deriving DecidableEq

/-- The outcome of a check: a value, or the issues found. -/
abbrev Checked (α : Type) := Except (List Issue) α

/-- Both outcomes, with the issues of both if either failed. -/
def Checked.both {α β : Type} : Checked α → Checked β → Checked (α × β)
  | .ok a, .ok b => .ok (a, b)
  | .ok _, .error e => .error e
  | .error e, .ok _ => .error e
  | .error e, .error e' => .error (e ++ e')

/-- The outcome with its issues seen from one step further out. -/
def Checked.under {α : Type} (step : Step) (c : Checked α) : Checked α :=
  c.mapError fun issues => issues.map (Issue.under step)

/-- What was read from a piece of data, or the complaint about it. -/
def judge {α : Type} (v : Value) (x : Except Complaint α) : Checked α :=
  x.mapError fun c => [⟨[], c, some v⟩]

/-- A complaint about a piece of data. -/
def complain {α : Type} (c : Complaint) (v : Value) : Checked α := judge v (.error c)

/-- The outcome of a check of data that should have had a shape. -/
def Checked.entitled {α : Type} (title : Text) (c : Checked α) : Except Report α :=
  c.mapError fun issues => ⟨title, issues, none⟩

/-- Checks every item of a sequence, from a given index on, and collects all issues. -/
def checkItems {α β : Type} (check : α → Checked β) : Nat → List α → Checked (List β)
  | _, [] => .ok []
  | i, a :: rest =>
    ((Checked.under (.item i) (check a)).both (checkItems check (i + 1) rest)).map
      fun p => p.1 :: p.2

/-- A check of all items succeeds with as many results as there are items. -/
theorem length_of_checkItems {α β : Type} {check : α → Checked β} {i : Nat} {l : List α}
    {r : List β} (h : checkItems check i l = .ok r) : r.length = l.length := by
  induction l generalizing i r with
  | nil => cases h; rfl
  | cons a l ih =>
    unfold checkItems at h
    cases ha : Checked.under (.item i) (check a) <;>
      cases hl : checkItems check (i + 1) l <;>
      simp only [ha, hl, Checked.both, Except.map] at h <;> cases h
    simp [ih hl]

end Gatehouse.Validation
