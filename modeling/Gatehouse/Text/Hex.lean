import Gatehouse.Text

/-!
# Lower-case hexadecimal digits

Fixed-width hexadecimal text of natural numbers and of bytes, most significant digit first.  Main
statement: the width is kept (`length_hexDigits`).
-/

namespace Gatehouse.Text

/-- The digit of a value below sixteen. -/
def hexDigit (n : Nat) : Char :=
  if n < 10 then Char.ofNat (48 + n) else Char.ofNat (87 + n)

/-- The last `width` hexadecimal digits of `n`. -/
def hexDigits : Nat → Nat → List Char
  | 0, _ => []
  | width + 1, n => hexDigits width (n / 16) ++ [hexDigit (n % 16)]

/-- A number is written with as many digits as asked for. -/
theorem length_hexDigits (width n : Nat) : (hexDigits width n).length = width := by
  induction width generalizing n with
  | zero => rfl
  | succ width ih => simp [hexDigits, ih]

/-- The bytes of a message, two digits each. -/
def hexOfBytes (bytes : List UInt8) : Text :=
  ofChars (bytes.flatMap fun b => hexDigits 2 b.toNat)

example : hexDigits 4 0xe9 = ['0', '0', 'e', '9'] := by decide

end Gatehouse.Text
