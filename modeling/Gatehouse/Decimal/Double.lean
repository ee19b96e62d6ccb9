/-!
# The exact value of a double

A finite double is a whole number times a power of two.  `quotientOf` gives its size as a quotient,
and `whole?` the whole number that it is, whatever its size.
-/

namespace Gatehouse.Decimal

/-- The weight of the leading bit that a normal double does not store. -/
def implicitBit : Nat := Nat.shiftLeft 1 52

/-- The exact size of a finite double as a quotient. -/
def quotientOf (x : Float) : Nat × Nat :=
  let bits := x.toBits.toNat
  let exponent : Nat := bits / implicitBit % 2048
  let fraction := bits % implicitBit
  let mantissa := if exponent = 0 then fraction else implicitBit + fraction
  let power : Int := ((if exponent = 0 then 1 else exponent : Nat) : Int) - 1075
  (mantissa.shiftLeft power.toNat, Nat.shiftLeft 1 (-power).toNat)

/-- Whether a double is a number other than the infinities. -/
def isFinite (x : Float) : Bool := !x.isNaN && !x.isInf

/-- Whether the sign bit of a double is set. -/
def isNegative (x : Float) : Bool := x.toBits.toNat.testBit 63

/-- The whole number that a finite double is, if it is one. -/
def whole? (x : Float) : Option Int :=
  let q := quotientOf x
  if !isFinite x || q.1 % q.2 != 0 then none
  else some (if isNegative x then -(q.1 / q.2 : Nat) else (q.1 / q.2 : Nat))

example : whole? (-3.0) = some (-3) ∧ whole? 0.5 = none ∧ whole? (-0.0) = some 0 := by
  decide +kernel

end Gatehouse.Decimal
