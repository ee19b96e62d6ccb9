import Gatehouse.Decimal.Double

/-!
# The shortest decimal of a double

A double is written with the fewest digits that read back to it; of two such decimals the nearer
one is taken, and of two equally near the one with an even last digit.  Main statement: what is
selected reads back (`readsBack_shortest?`).  The layout is positional for values from 10⁻⁴ up to
10¹⁶, and has an exponent of at least two digits elsewhere.
-/

namespace Gatehouse.Decimal

/-- The value `digits · 10 ^ exponent`. -/
structure Dec where
  digits : Nat
  exponent : Int
deriving DecidableEq

/-- The double nearest to a decimal. -/
def Dec.toFloat (d : Dec) : Float :=
  if d.exponent < 0 then Float.ofScientific d.digits true d.exponent.natAbs
  else Float.ofScientific d.digits false d.exponent.natAbs

/-- Whether a decimal reads back to `x`. -/
def readsBack (x : Float) (d : Dec) : Bool := d.toFloat.toBits == x.toBits

/-- The number of decimal digits of a natural number. -/
def digitCount (n : Nat) : Nat := (Nat.toDigits 10 n).length

/-- The decimal exponent of a quotient's leading digit: the quotient lies in the decade
`10 ^ e ≤ q < 10 ^ (e + 1)`. -/
def decade (num den : Nat) : Int :=
  if den ≤ num then digitCount (num / den) - 1
  else -((List.range 400).findIdx fun k => den ≤ num * Nat.pow 10 (k + 1) : Nat) - 1

/-- The decimal with `count` digits that is chosen for `x`, if one reads back. -/
def withDigits? (x : Float) (count : Nat) : Option Dec :=
  let q := quotientOf x
  let exponent := decade q.1 q.2 - count + 1
  let num := q.1 * Nat.pow 10 (-exponent).toNat
  let den := q.2 * Nat.pow 10 exponent.toNat
  let below : Dec := ⟨num / den, exponent⟩
  let above : Dec := ⟨num / den + 1, exponent⟩
  let upFirst := den < 2 * (num % den) || (den == 2 * (num % den) && num / den % 2 == 1)
  (if upFirst then [above, below] else [below, above]).find? (readsBack x)

/-- The shortest decimal of a positive finite double. -/
def shortest? (x : Float) : Option Dec := ((List.range 17).map (· + 1)).findSome? (withDigits? x)

/-- **What is selected reads back.** -/
theorem readsBack_shortest? {x : Float} {d : Dec} (h : shortest? x = some d) :
    readsBack x d = true := by
  obtain ⟨count, -, hd⟩ := List.exists_of_findSome?_eq_some h
  exact List.find?_some hd

/-- The digits without their trailing zeros. -/
def significant (n : Nat) : List Char :=
  ((Nat.toDigits 10 n).reverse.dropWhile (· == '0')).reverse

/-- Digits laid out with the point after `point` digits. -/
def layout (digits : List Char) (point : Int) : List Char :=
  if -3 ≤ point ∧ point ≤ 16 then
    if point ≤ 0 then '0' :: '.' :: List.replicate point.natAbs '0' ++ digits
    else if digits.length ≤ point.toNat then
      digits ++ List.replicate (point.toNat - digits.length) '0' ++ ['.', '0']
    else digits.take point.toNat ++ '.' :: digits.drop point.toNat
  else
    let power := point - 1
    let head := match digits with
      | [] => []
      | [d] => [d]
      | d :: rest => d :: '.' :: rest
    let width := Nat.toDigits 10 power.natAbs
    head ++ ['e', if power < 0 then '-' else '+'] ++
      (if width.length < 2 then '0' :: width else width)

/-- The text of a double. -/
def ofFloat (x : Float) : String :=
  if x.isNaN then "nan"
  else
    let negative := isNegative x
    let size := x.abs
    let body :=
      if size.isInf then "inf".toList
      else if size == 0 then "0.0".toList
      else match shortest? size with
        | none => []
        | some d => layout (significant d.digits) (d.exponent + digitCount d.digits)
    String.ofList (if negative then '-' :: body else body)

end Gatehouse.Decimal
