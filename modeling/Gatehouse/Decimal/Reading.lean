import Gatehouse.Text.Blank

/-!
# Numbers read from text

The forms in which a setting may write a number.  A real number has an optional sign, digits with at
most one point among or beside them, and an optional exponent; `inf`, `infinity` and `nan` are read
in any letter case.  A whole number has an optional sign, digits, and at most a fraction of zeros;
zeros in front of it do not count, and a minus sign may also stand behind those.  Blanks may stand
around a number.  Single underscores may stand between the digits; in a real number with underscores
no blanks may stand around it.  A whole number has a greatest length, and a text that begins with a
longer numeral is told apart (`startsOversized`).
-/

namespace Gatehouse.Decimal

/-- Whether a character may stand around a number. -/
def isSpace (c : Char) : Bool := Text.isBlank c && !(0x1c ≤ c.toNat && c.toNat ≤ 0x1f)

/-- The text without the blanks at both ends. -/
def trim (l : List Char) : List Char :=
  ((l.dropWhile isSpace).reverse.dropWhile isSpace).reverse

/-- The value of a list of digits. -/
def digitsValue (l : List Char) : Nat := l.foldl (fun n c => 10 * n + (c.toNat - 48)) 0

/-- The sign of a number and what follows it; `true` is the minus sign. -/
def splitSign : List Char → Bool × List Char
  | '-' :: rest => (true, rest)
  | '+' :: rest => (false, rest)
  | l => (false, l)

/-- The leading digits of a text and what follows them. -/
def splitDigits (l : List Char) : List Char × List Char :=
  (l.takeWhile Char.isDigit, l.dropWhile Char.isDigit)

/-- An exponent, absent at the end of the text. -/
def exponent? : List Char → Option Int
  | [] => some 0
  | c :: rest =>
    if c = 'e' || c = 'E' then
      let s := splitSign rest
      let d := splitDigits s.2
      if d.1.isEmpty || !d.2.isEmpty then none
      else some (if s.1 then -(digitsValue d.1 : Int) else digitsValue d.1)
    else none

/-- The double nearest to `digits · 10 ^ exponent`.  A value of at least 10³¹⁰ is infinite, and one
below 10⁻³⁴⁰ is zero, without computing the power. -/
def scaled (digits : Nat) (exponent : Int) : Float :=
  let top := exponent + (Nat.toDigits 10 digits).length
  if digits = 0 || top < -340 then 0.0
  else if 310 < top then 1.0 / 0.0
  else if exponent < 0 then Float.ofScientific digits true exponent.natAbs
  else Float.ofScientific digits false exponent.natAbs

/-- A real number without its sign. -/
def unsignedReal? (l : List Char) : Option Float :=
  let word := String.ofList (l.map Char.toLower)
  if word = "inf" || word = "infinity" then some (1.0 / 0.0)
  else if word = "nan" then some (0.0 / 0.0)
  else
    let whole := splitDigits l
    let fraction := match whole.2 with
      | '.' :: rest => splitDigits rest
      | rest => ([], rest)
    if whole.1.isEmpty && fraction.1.isEmpty then none
    else (exponent? fraction.2).map fun e =>
      scaled (digitsValue (whole.1 ++ fraction.1)) (e - fraction.1.length)

/-- A real number. -/
def plainReal? (l : List Char) : Option Float :=
  let s := splitSign l
  (unsignedReal? s.2).map fun x => if s.1 then -x else x

/-- The text without its underscores, unless one stands at an end or beside another. -/
def joinGroups? (l : List Char) : Option (List Char) :=
  if l.head? = some '_' || l.getLast? = some '_' ||
      (l.zip (l.drop 1)).any (fun p => p.1 == '_' && p.2 == '_') then none
  else some (l.filter (· != '_'))

/-- Reads a real number. -/
def readReal? (s : String) : Option Float :=
  (plainReal? (trim s.toList)).orElse fun _ => (joinGroups? s.toList).bind plainReal?

/-- A whole number without its fraction of zeros.  A point must have a zero behind it. -/
def dropFraction? (l : List Char) : Option (List Char) :=
  let whole := l.takeWhile (· != '.')
  match l.dropWhile (· != '.') with
  | [] => some whole
  | _ :: fraction => if fraction.isEmpty || !fraction.all (· == '0') then none else some whole

/-- Whether a character may stand among the zeros in front of a whole number. -/
def isFiller (c : Char) : Bool := c == '0' || c == '_'

/-- A whole number without the zeros in front of it and the underscores behind them, where a minus
sign may follow as well as a digit.  Of zeros alone the last character remains. -/
def dropZeros? (l : List Char) : Option (List Char) :=
  match l with
  | [] => none
  | c :: _ =>
    if c = '0' then
      match l.dropWhile isFiller with
      | [] => some l.getLast?.toList
      | d :: rest => if d.isDigit || d = '-' then some (d :: rest) else none
    else if c.isDigit then some l
    else none

/-- The greatest number of digits of a whole number. -/
def mostDigits : Nat := 4300

/-- A whole number in digits that do not start with a zero, unless it is zero, and of which there
are not too many. -/
def numeral? (l : List Char) : Option Nat :=
  if l.isEmpty || !l.all Char.isDigit || (l.head? = some '0' && l.length != 1) ||
      mostDigits < l.length then none
  else some (digitsValue l)

/-- A whole number with a minus sign or none. -/
def signedNumeral? : List Char → Option Int
  | '-' :: l => (numeral? l).map fun n => -(n : Int)
  | l => (numeral? l).map fun n => (n : Int)

/-- The digits that a text begins with behind a minus sign or none, if the first of them is no
zero. -/
def leadingDigits : List Char → List Char
  | '-' :: l | l => if l.head? = some '0' then [] else (splitDigits l).1

/-- Whether a text begins with a numeral of too many digits, whatever follows it. -/
def startsOversized (s : String) : Bool := mostDigits < (leadingDigits s.toList).length

/-- Reads a whole number; one of too many digits is none. -/
def readInt? (s : String) : Option Int :=
  (dropFraction? (trim s.toList)).bind fun l =>
    let sign := splitSign l
    ((dropZeros? sign.2).bind joinGroups?).bind fun digits =>
      signedNumeral? (if sign.1 then '-' :: digits else digits)

example : ["1.0", "+5", "-05", "0_5", "0__1", "0-5", "1_000"].map readInt? =
    [some 1, some 5, some (-5), some 5, some 1, some (-5), some 1000] := by decide +kernel

example : ["", "1.", ".0", "5_", "5__0", "0_", "--5", "-0-5", "1e3"].map readInt? =
    List.replicate 9 none := by decide +kernel

end Gatehouse.Decimal
