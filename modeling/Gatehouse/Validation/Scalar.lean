import Gatehouse.Decimal.Reading
import Gatehouse.Validation.Report
import Gatehouse.Value

/-!
# Scalars from data

Reads truth values, real numbers and whole numbers from data that may have come in as text.  A truth
value may be written as one of six words either way, in any letter case; a number may be written as
`Gatehouse.Decimal.readReal?` and `Gatehouse.Decimal.readInt?` say; a truth value counts as one or
zero where a number is wanted.  A number counts as a truth value only if it is a word of 64 bits,
and a double as a whole number only if its size is that of such a word.
-/

namespace Gatehouse.Validation

/-- The words for truth. -/
def trueWords : List String := ["1", "true", "t", "yes", "y", "on"]

/-- The words for falsehood. -/
def falseWords : List String := ["0", "false", "f", "no", "n", "off"]

/-- A text in lower case, as far as it is ASCII. -/
def lowerCase (s : String) : String := String.ofList (s.toList.map Char.toLower)

/-- The bound of the whole numbers of 64 bits: they lie below it, and not below its negative. -/
def wordBound : Int := 9223372036854775808

/-- The whole number that a double is, if its size is below the bound of the words. -/
def wholeNumber (x : Float) : Except Complaint Int :=
  if !Decimal.isFinite x then .error .notFinite
  else match Decimal.whole? x with
    | none => .error .fractional
    | some n => if n.natAbs < wordBound.natAbs then .ok n else .error .oversized

/-- A truth value for zero or one. -/
def boolOfInt (n : Int) : Except Complaint Bool :=
  if n = 0 then .ok false else if n = 1 then .ok true else .error .unreadBool

/-- Reads a text as a word of something.  One with surrogates is no word. -/
def readWord {α : Type} (read : String → Except Complaint α) (s : Text) : Except Complaint α :=
  match s.string? with
  | some word => read word
  | none => .error .notUnicode

/-- The truth value that a word stands for. -/
def boolOfWord (word : String) : Except Complaint Bool :=
  if trueWords.contains (lowerCase word) then .ok true
  else if falseWords.contains (lowerCase word) then .ok false
  else .error .unreadBool

/-- The real number that a word stands for. -/
def realOfWord (word : String) : Except Complaint Float :=
  match Decimal.readReal? word with
  | none => .error .unreadNumber
  | some x => .ok x

/-- The whole number that a word stands for. -/
def integerOfWord (word : String) : Except Complaint Int :=
  if Decimal.startsOversized word then .error .oversized
  else match Decimal.readInt? word with
    | none => .error .unreadInteger
    | some n => .ok n

/-- Reads a truth value. -/
def readBool : Value → Except Complaint Bool
  | .bool b => .ok b
  | .text s => readWord boolOfWord s
  | .int n => if -wordBound ≤ n ∧ n < wordBound then boolOfInt n else .error .notBool
  | .real x =>
    match wholeNumber x with
    | .ok n => boolOfInt n
    | .error _ => .error .notBool
  | _ => .error .notBool

/-- Reads a real number. -/
def readReal : Value → Except Complaint Float
  | .bool b => .ok (if b then 1.0 else 0.0)
  | .int n =>
    let x := Float.ofInt n
    if x.isInf then .error .notNumber else .ok x
  | .real x => .ok x
  | .text s => readWord realOfWord s
  | _ => .error .notNumber

/-- Reads a whole number. -/
def readInteger : Value → Except Complaint Int
  | .bool b => .ok (if b then 1 else 0)
  | .int n => .ok n
  | .real x => wholeNumber x
  | .text s => readWord integerOfWord s
  | _ => .error .notInteger

/-- A truth value. -/
def checkBool (v : Value) : Checked Bool := judge v (readBool v)

/-- A real number of at least zero. -/
def checkSeconds (v : Value) : Checked Float :=
  judge v <| match readReal v with
    | .error c => .error c
    | .ok x => if 0.0 ≤ x then .ok x else .error (.below 0)

/-- A whole number of at least one. -/
def checkCount (v : Value) : Checked Nat :=
  judge v <| match readInteger v with
    | .error c => .error c
    | .ok n => if 1 ≤ n then .ok n.toNat else .error (.below 1)

end Gatehouse.Validation
