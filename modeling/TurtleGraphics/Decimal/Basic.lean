/-!
# Decimal Text

A decimal number is a natural number with its point moved to the left or to the
right. Its text is positional: there is never an exponent part, zeros fill the
gap between the digits and the point instead.

## Main definitions

* `Decimal`: A natural number and a power of ten.
* `Decimal.text`: The positional text.
* `Decimal.trimmed`: The same number without trailing zeros in its digits.
-/

namespace TurtleGraphics

/-- The number `digits * 10 ^ exponent`. -/
structure Decimal where
  digits : Nat
  exponent : Int
  deriving DecidableEq, Repr

namespace Decimal

/-- The last `places` of `digits` stand after the point, and at least one digit
    stands before it. -/
def withPoint (digits : List Char) (places : Nat) : List Char :=
  if places < digits.length then
    digits.take (digits.length - places) ++ '.' :: digits.drop (digits.length - places)
  else
    '0' :: '.' :: (List.replicate (places - digits.length) '0' ++ digits)

/-- The positional text of a decimal number. -/
def text (d : Decimal) : List Char :=
  let digits := Nat.toDigits 10 d.digits
  match d.exponent with
  | .ofNat zeros => digits ++ List.replicate zeros '0'
  | .negSucc places => withPoint digits (places + 1)

/-- Moves trailing zeros of the digits into the exponent, at most `limit` of
    them. -/
def trimmed : (limit : Nat) → Decimal → Decimal
  | 0, d => d
  | limit + 1, d =>
    if d.digits % 10 = 0 then trimmed limit ⟨d.digits / 10, d.exponent + 1⟩ else d

end Decimal

end TurtleGraphics
