import TurtleGraphics.Decimal.Shortest

/-!
# Decimals with a Fixed Number of Places

Writing a scalar with a fixed number of places rounds its exact binary value to
the nearest decimal with that many places; a value halfway between two of them
goes to the one with the even last digit.

## Main definitions

* `roundHalfEven`: The nearest whole number to a quotient, ties to even.
* `Scalar.fixedChars`: The text of a scalar with a fixed number of places.
-/

namespace TurtleGraphics

/-- The whole number nearest to `numerator / denominator`; a tie goes to the
    even one. -/
def roundHalfEven (numerator denominator : Nat) : Nat :=
  let below := numerator / denominator
  let twice := 2 * (numerator % denominator)
  if twice < denominator then below
  else if denominator < twice then below + 1
  else if below % 2 = 0 then below
  else below + 1

/-- The decimal with `places` places nearest to `mantissa * 2 ^ scale` units. -/
def Decimal.fixed (places mantissa scale : Nat) : Decimal :=
  let numerator := mantissa * Nat.pow 2 (scale - 1074) * Nat.pow 10 places
  ⟨roundHalfEven numerator (Nat.pow 2 (1074 - scale)), -Int.ofNat places⟩

/-- The text of a scalar with exactly `places` decimal places. -/
def Scalar.fixedChars (places : Nat) (v : Scalar) : List Char :=
  match parts v with
  | .finite negative m s => signText negative ++ (Decimal.fixed places m s).text
  | _ => v.chars

end TurtleGraphics
