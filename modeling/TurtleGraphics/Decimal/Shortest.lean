import TurtleGraphics.Decimal.Basic
import TurtleGraphics.Scalar

/-!
# Shortest Decimals

A scalar stands for all the real numbers that round to it. Among the decimals in
that interval the text of the scalar is one with the fewest digits, and of those
the one nearest to the scalar; of two equally near ones the larger.

The search goes through ever finer grids `10 ^ k`. On each grid only the two
neighbours of the scalar need a look: when any point of a grid lies in the
interval, one of these two does.

## Main definitions

* `Rounding`: The interval of reals that round to one scalar.
* `Rounding.nearest?`: The neighbour on a grid that reads back, if any.
* `Decimal.shortest`: The shortest decimal that reads back.
* `Scalar.text`: The text of a scalar.
-/

namespace TurtleGraphics

/-- A positive scalar and the interval of numbers that round to it, all over
    one denominator. The end points belong to the interval when `closed`. -/
structure Rounding where
  value : Nat
  low : Nat
  high : Nat
  denominator : Nat
  closed : Bool
  deriving DecidableEq, Repr

namespace Rounding

/-- The interval around `mantissa * 2 ^ scale` units, counted in quarters of the
    gap to the next scalar. Halfway points go to the even mantissa. Just above a
    power of two the gap below is half as wide. -/
def ofParts (mantissa scale : Nat) : Rounding :=
  let factor := Nat.pow 2 (scale - 1076)
  let below := if mantissa = Nat.pow 2 52 ∧ 0 < scale then 1 else 2
  { value := 4 * mantissa * factor
    low := (4 * mantissa - below) * factor
    high := (4 * mantissa + 2) * factor
    denominator := Nat.pow 2 (1076 - scale)
    closed := mantissa % 2 = 0 }

/-- The same interval measured in multiples of `10 ^ k`. -/
def onGrid (r : Rounding) : Int → Rounding
  | .ofNat k => { r with denominator := r.denominator * Nat.pow 10 k }
  | .negSucc k =>
    let factor := Nat.pow 10 (k + 1)
    { r with value := r.value * factor, low := r.low * factor, high := r.high * factor }

/-- Whether the whole number `n` lies in the interval. -/
def contains (r : Rounding) (n : Nat) : Bool :=
  let n := n * r.denominator
  if r.closed then r.low ≤ n && n ≤ r.high else r.low < n && n < r.high

/-- The whole number nearest to the value, among its two neighbours that lie in
    the interval. -/
def nearest? (r : Rounding) : Option Nat :=
  let below := r.value / r.denominator
  let rest := r.value % r.denominator
  match r.contains below, r.contains (below + 1) with
  | true, true => if 2 * rest < r.denominator then some below else some (below + 1)
  | true, false => some below
  | false, true => some (below + 1)
  | false, false => none

/-- The number of decimal digits of a natural number. -/
def digitCount (n : Nat) : Nat := (Nat.toDigits 10 n).length

/-- The power of ten of the value's leading digit. -/
def magnitude (r : Rounding) : Int :=
  if r.denominator ≤ r.value then Int.ofNat (digitCount (r.value / r.denominator)) - 1
  else -Int.ofNat (digitCount ((r.denominator - 1) / r.value))

/-- The first grid from `10 ^ k` downwards on which a neighbour of the value
    lies in the interval, looking at `limit` grids. -/
def search (r : Rounding) : (limit : Nat) → (k : Int) → Decimal
  -- Not reached from the grid of the leading digit: seventeen grids are enough.
  | 0, k => ⟨(r.onGrid k).value / (r.onGrid k).denominator, k⟩
  | limit + 1, k =>
    match (r.onGrid k).nearest? with
    | some n => ⟨n, k⟩
    | none => search r limit (k - 1)

end Rounding

/-- The shortest decimal that rounds to `mantissa * 2 ^ scale` units. Seventeen
    digits tell all scalars apart. -/
def Decimal.shortest (mantissa scale : Nat) : Decimal :=
  let r := Rounding.ofParts mantissa scale
  (r.search 17 r.magnitude).trimmed 17

namespace Scalar

/-- The sign as it is written. -/
def signText (negative : Bool) : List Char := if negative then ['-'] else []

/-- The text of a scalar: the shortest decimal that reads back, without an
    exponent and without a point where no digit follows it. -/
def chars (v : Scalar) : List Char :=
  match parts v with
  | .nan => ['N', 'a', 'N']
  | .infinite negative => signText negative ++ ['i', 'n', 'f']
  | .finite negative m s =>
    signText negative ++ if m = 0 then ['0'] else (Decimal.shortest m s).text

@[inherit_doc chars]
def text (v : Scalar) : String := String.ofList (chars v)

end Scalar

end TurtleGraphics
