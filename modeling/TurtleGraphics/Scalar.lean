/-!
# Scalars

Every quantity a turtle program computes with is a binary64 number. The basic
arithmetic of such numbers is the hardware's; the operations that look at the
*exact* value of a number (remainder, rounding down, whole counts, decimal
text) are computed here from its parts, so that they are ordinary statements
about natural numbers.

The smallest positive scalar is `2 ^ -1074`, the *unit*. The magnitude of every
finite scalar is a whole number of units, `mantissa * 2 ^ scale`, and `1` is
`2 ^ 1074` units. Working in units keeps negative exponents out of sight.

## Main definitions

* `Parts`: A scalar taken apart into sign, mantissa and scale.
* `Scalar.parts`: The parts of a scalar.
* `Scalar.ofUnits`: The scalar with a given sign and number of units.
* `Scalar.remainder`: What is left after taking away whole multiples.
* `Scalar.floor`: Rounding down.
* `Scalar.wholeBelow`, `Scalar.wholeAbove`: Rounding to natural numbers.

## Theorems

* `Scalar.lt_iff_unpack`: The order compares numbers that were taken apart.
* `Scalar.not_lt_of_zero_between`: What is above a positive number is not below a negative
  one.
-/

namespace TurtleGraphics

/-- The numbers of the language. -/
abbrev Scalar := Float

/-- A scalar taken apart. A finite one has the magnitude
    `mantissa * 2 ^ scale` units. -/
inductive Parts where
  | nan
  | infinite (negative : Bool)
  | finite (negative : Bool) (mantissa scale : Nat)
  deriving DecidableEq, Repr

namespace Scalar

/-- The number of units in `1`. -/
def unitsPerOne : Nat := Nat.pow 2 1074

/-- The three fields of the 64-bit word: one sign bit, eleven exponent bits and
    fifty-two fraction bits. The largest exponent field marks the infinities and
    the numbers that are none; the smallest one marks the numbers whose leading
    one is not implied. -/
def parts (v : Scalar) : Parts :=
  let word := v.toBits.toNat
  let negative := decide (Nat.pow 2 63 ≤ word)
  let exponent := word / Nat.pow 2 52 % 2048
  let fraction := word % Nat.pow 2 52
  if exponent = 2047 then
    if fraction = 0 then .infinite negative else .nan
  else if exponent = 0 then .finite negative fraction 0
  else .finite negative (fraction + Nat.pow 2 52) (exponent - 1)

/-- The number that is none. -/
def nan : Scalar := 0.0 / 0.0

/-- The two infinities. -/
def infinity (negative : Bool) : Scalar := if negative then -1.0 / 0.0 else 1.0 / 0.0

/-- The scalar of `units` units. The leading fifty-three bits become the
    mantissa, so the value is exact whenever the bits below them are zero. -/
def ofUnits (negative : Bool) (units : Nat) : Scalar :=
  let scale := units.log2 - 52
  -- The leading bit of the mantissa carries into the exponent field by itself.
  let word := scale * Nat.pow 2 52 + units / Nat.pow 2 scale
  Float.ofBits (word + if negative then Nat.pow 2 63 else 0).toUInt64

/-- The remainder of dividing `a` by `b`, with the sign of `a`: the quotient is
    cut off towards zero and the result is exact. -/
def remainder (a b : Scalar) : Scalar :=
  if a.abs < b.abs then a
  else
    match parts a, parts b with
    | .finite negative m s, .finite _ n t =>
      if n = 0 then nan else ofUnits negative (m * Nat.pow 2 s % (n * Nat.pow 2 t))
    | _, _ => nan

/-- The largest whole number that is not above `v`. Zero keeps its sign. -/
def floor (v : Scalar) : Scalar :=
  match parts v with
  | .finite negative m s =>
    let units := m * Nat.pow 2 s
    let whole := units / unitsPerOne
    let whole := if negative && units % unitsPerOne != 0 then whole + 1 else whole
    ofUnits negative (whole * unitsPerOne)
  | _ => v

/-- More than a counter of 64 bits can hold. -/
def countless : Nat := Nat.pow 2 64

/-- How many whole ones lie at or below `v`: zero for a negative number and for
    the number that is none, and more than can be counted for the infinite one. -/
def wholeBelow (v : Scalar) : Nat :=
  match parts v with
  | .finite false m s => m * Nat.pow 2 s / unitsPerOne
  | .infinite false => countless
  | _ => 0

/-- How many of the numbers `0, 1, 2, …` lie strictly below `v`, counting no
    further than `cap`. -/
def wholeAbove (cap : Nat) (v : Scalar) : Nat :=
  match parts v with
  | .finite false m s => min cap ((m * Nat.pow 2 s + (unitsPerOne - 1)) / unitsPerOne)
  | .infinite false => cap
  | _ => 0

/-- The scalar of a natural number. -/
def ofNat (n : Nat) : Scalar := Float.ofNat n

/-- Truth values are the numbers one and zero. -/
def ofBool (b : Bool) : Scalar := if b then 1.0 else 0.0

section Order

open Float.Model

theorem lt_iff_unpack (v w : Scalar) :
    v < w ↔ v.toModel.unpack.compare w.toModel.unpack = some .lt := by
  change decide (v.toModel.unpack.lt w.toModel.unpack = true) = true ↔ _
  rw [decide_eq_true_eq, UnpackedFloat.lt, beq_iff_eq]

theorem unpack_zero : (0.0 : Scalar).toModel.unpack = .zero .positive := rfl

theorem zero_lt_of_lt {v w : Scalar} (hv : 0.0 < v) (h : v < w) : 0.0 < w := by
  rw [lt_iff_unpack, unpack_zero] at hv ⊢
  rw [lt_iff_unpack] at h
  -- A number above zero is positive or the infinite one, and so is what is above that.
  generalize v.toModel.unpack = x at hv h
  generalize w.toModel.unpack = y at h ⊢
  match x, y, hv, h with
  | .finite .positive .., .finite .positive .., _, _ => rfl
  | .finite .positive .., .infinity .positive, _, _ => rfl

theorem lt_zero_of_lt {v w : Scalar} (h : v < w) (hw : w < 0.0) : v < 0.0 := by
  rw [lt_iff_unpack, unpack_zero] at hw ⊢
  rw [lt_iff_unpack] at h
  generalize v.toModel.unpack = x at h ⊢
  generalize w.toModel.unpack = y at hw h
  match y, x, hw, h with
  | .finite .negative .., .finite .negative .., _, _ => rfl
  | .finite .negative .., .infinity .negative, _, _ => rfl

theorem not_lt_zero {v : Scalar} (h : 0.0 < v) : ¬ v < 0.0 := by
  rw [lt_iff_unpack, unpack_zero] at h ⊢
  generalize v.toModel.unpack = x at h ⊢
  match x, h with
  | .finite .positive .., _ => nofun
  | .infinity .positive, _ => nofun

/-- What is above a positive number is not below a negative one. -/
theorem not_lt_of_zero_between {low high v : Scalar} (hlow : low < 0.0) (hhigh : 0.0 < high)
    (h : high < v) : ¬ v < low :=
  fun hv => not_lt_zero (zero_lt_of_lt hhigh h) (lt_zero_of_lt hv hlow)

end Order

end Scalar

end TurtleGraphics
