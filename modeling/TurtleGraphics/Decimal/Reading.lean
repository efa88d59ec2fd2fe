import TurtleGraphics.Decimal.Basic
import TurtleGraphics.Scalar

/-!
# Reading Decimals

A decimal number is read as the scalar nearest to it. The written forms accepted
for numbers given from outside a program are an optional sign followed by a
decimal with an optional point and an optional power of ten, or by the name of a
number that is not finite.

## Main definitions

* `digitsValue`: The natural number a run of digits denotes.
* `Decimal.toScalar`: The scalar nearest to a decimal.
* `Scalar.read?`: The scalar a text denotes.
-/

namespace TurtleGraphics

/-- The value of one digit. -/
def digitValue (c : Char) : Nat := c.toNat - '0'.toNat

/-- The natural number that a run of digits denotes. -/
def digitsValue (digits : List Char) : Nat :=
  digits.foldl (fun n c => 10 * n + digitValue c) 0

/-- The scalar nearest to a decimal. Beyond `10 ^ 400` every decimal rounds to
    infinity and below `10 ^ -400` to zero, so powers of ten past these bounds
    are not computed. -/
def Decimal.toScalar (d : Decimal) : Scalar :=
  let leading := d.exponent + Int.ofNat (Nat.toDigits 10 d.digits).length
  if d.digits = 0 ∨ leading < -400 then 0.0
  else if 400 < leading then Scalar.infinity false
  else Float.ofScientific d.digits (decide (d.exponent < 0)) d.exponent.natAbs

namespace Scalar

/-- The power of ten after the mantissa: nothing at all, or a mark, an optional
    sign and at least one digit. -/
def readExponent? : List Char → Option Int
  | [] => some 0
  | mark :: rest =>
    if mark != 'e' && mark != 'E' then none
    else
      let (negative, digits) :=
        match rest with
        | '-' :: digits => (true, digits)
        | '+' :: digits => (false, digits)
        | digits => (false, digits)
      if digits.isEmpty || !digits.all Char.isDigit then none
      else
        let n := Int.ofNat (digitsValue digits)
        some (if negative then -n else n)

/-- A decimal without a sign: digits with an optional point among them, of which
    at least one is there, and an optional power of ten. -/
def readMagnitude? (s : List Char) : Option Scalar :=
  let whole := s.takeWhile Char.isDigit
  let (fraction, rest) :=
    match s.dropWhile Char.isDigit with
    | '.' :: tail => (tail.takeWhile Char.isDigit, tail.dropWhile Char.isDigit)
    | tail => ([], tail)
  if whole.isEmpty && fraction.isEmpty then none
  else
    (readExponent? rest).map fun e =>
      Decimal.toScalar ⟨digitsValue (whole ++ fraction), e - Int.ofNat fraction.length⟩

/-- A number without a sign, by name or by digits. Names are read in any case. -/
def readUnsigned? (s : List Char) : Option Scalar :=
  let name := String.ofList (s.map Char.toLower)
  if name = "inf" ∨ name = "infinity" then some (infinity false)
  else if name = "nan" then some nan
  else readMagnitude? s

/-- The scalar that a text denotes. -/
def read? (s : String) : Option Scalar :=
  match s.toList with
  | '-' :: rest => (readUnsigned? rest).map (- ·)
  | '+' :: rest => readUnsigned? rest
  | rest => readUnsigned? rest

end Scalar

end TurtleGraphics
