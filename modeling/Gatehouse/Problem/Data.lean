import Gatehouse.Decimal.Reading
import Gatehouse.Problem

/-!
# Doing something with data

Data of any shape can be gone through, put in order, joined and collected, and each of these is a
problem for data that is not made for it.  None of them is one for texts
(`Value.sorted_texts`, `Value.distinctMembers_texts`, `Value.joined_texts`); but a text that holds
surrogates cannot be encoded (`Text.unencodable?_eq_none_iff`).
-/

namespace Gatehouse

/-- The problem of encoding a text that holds surrogates: these have no bytes. -/
def Text.unencodable? (s : Text) : Option Problem :=
  s.surrogates?.map fun place => .host "UnicodeEncodeError"
    [.text "utf-8", .text s, .int place.1, .int place.2, .text "surrogates not allowed"]

/-- A text can be encoded exactly if it holds no surrogate. -/
theorem Text.unencodable?_eq_none_iff {s : Text} :
    s.unencodable? = none ↔ s.isUnicode = true := by
  rw [unencodable?, Option.map_eq_none_iff, surrogates?_eq_none_iff]

/-- That a text cannot be encoded is no breakage of the engine. -/
theorem Text.isEngine_of_unencodable? {s : Text} {p : Problem} (h : s.unencodable? = some p) :
    p.isEngine = false := by
  obtain ⟨place, -, rfl⟩ := Option.map_eq_some_iff.1 h
  rfl

namespace Value

/-- Data that can be encoded if it is a text at all. -/
def IsEncodable (v : Value) : Prop := ∀ s, v = .text s → s.isUnicode = true

/-- A number of seconds; the absent value stands for no number. -/
def seconds : Value → Except Problem (Option Float)
  | .null => .ok none
  | .bool b => .ok (some (if b then 1.0 else 0.0))
  | .int n =>
    let x := Float.ofInt n
    if Decimal.isFinite x then .ok (some x) else .error (.notSeconds (.int n))
  | .real x => .ok (some x)
  | .text s =>
    match s.string?.bind Decimal.readReal? with
    | some x => .ok (some x)
    | none => .error (.notSeconds (.text s))
  | v => .error (.notSeconds v)

/-- What one gets by going through data. -/
def elements (v : Value) : Except Problem (List Value) :=
  match v.elements? with
  | some elements => .ok elements
  | none => .error (.noElements v.shapeName)

/-- Data in increasing order. -/
def sorted (l : List Value) : Except Problem (List Value) := (sort l).mapError .notOrdered

/-- Sorting texts as data is sorting them. -/
theorem sorted_texts (names : List Text) :
    sorted (names.map .text) = .ok ((sortNames names).map .text) := by
  rw [sorted, sort_texts]
  rfl

/-- The problem of looking data up, or of making it a member of a set. -/
def unfit? (v : Value) : Option Problem :=
  if v.isNested then some (.unfitForKey v.shapeName) else none

/-- Data that can be looked up. -/
def lookedUp (v : Value) : Except Problem Value :=
  match v.unfit? with
  | some p => .error p
  | none => .ok v

/-- The text that can be looked up: other data is absent, or it is a problem. -/
def asName (v : Value) : Except Problem (Option Text) := v.lookedUp.map text?

/-- A text can be looked up. -/
theorem asName_text (s : Text) : asName (.text s) = .ok (some s) := rfl

/-- The members that data has as a set, each where it stands first. -/
def distinctMembers (l : List Value) : Except Problem (List Value) :=
  match l.findSome? unfit? with
  | some p => .error p
  | none => .ok (distinct l)

/-- Texts can be the members of a set. -/
theorem distinctMembers_texts (names : List Text) :
    distinctMembers (names.map .text) = .ok (distinct (names.map .text)) := by
  have h : (names.map Value.text).findSome? unfit? = none := by
    simp [List.findSome?_eq_none_iff, unfit?, isNested]
  simp [distinctMembers, h]

/-- The texts that data consists of, counted from a place on. -/
def textsFrom (place : Nat) : List Value → Except Problem (List Text)
  | [] => .ok []
  | .text s :: rest => (textsFrom (place + 1) rest).map (s :: ·)
  | v :: _ => .error (.notJoinable place v.shapeName)

/-- Texts that stand in data are these texts. -/
theorem textsFrom_texts (place : Nat) (names : List Text) :
    textsFrom place (names.map .text) = .ok names := by
  induction names generalizing place with
  | nil => rfl
  | cons s rest ih => simp [textsFrom, ih, Except.map]

/-- Texts in one, with a separator between them. -/
def joined (separator : Text) (l : List Value) : Except Problem Text :=
  (textsFrom 0 l).map separator.intercalate

/-- Texts can be joined. -/
theorem joined_texts (separator : Text) (names : List Text) :
    joined separator (names.map .text) = .ok (separator.intercalate names) := by
  simp [joined, textsFrom_texts, Except.map]

end Value

end Gatehouse
