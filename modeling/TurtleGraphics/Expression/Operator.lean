import TurtleGraphics.Scalar

/-!
# Operators

Operators are written with one character and come in two sorts. Unary ones stand
before their operand, except the two powers, which stand after it. Binary ones
stand between their operands. The two sorts share the symbols `+` and `-`.

Priorities run from `1`, the loosest, to `14`, the tightest. Comparisons and
logical operators give one or zero.

## Main definitions

* `Unary`, `Binary`, `Operator`: The operators.
* `Operator.ofSymbol?`: The operator written with a symbol.
* `Operator.yieldsTo`: When an operator lets an earlier one act first.
* `Operator.beforeEquals?`: The comparison written with a symbol and `=`.
* `Unary.apply`, `Binary.apply`: What the operators compute.
-/

namespace TurtleGraphics

/-- The operators with one operand. -/
inductive Unary where
  | not
  | plus
  | minus
  | squareRoot
  | cubeRoot
  | square
  | cube
  deriving DecidableEq, Repr

/-- The operators with two operands. Multiplication and division have two
    spellings each. -/
inductive Binary where
  | or
  | and
  | equal
  | unequal
  | less
  | lessEqual
  | greater
  | greaterEqual
  | add
  | subtract
  | multiply
  | times
  | divide
  | over
  | modulo
  | power
  deriving DecidableEq, Repr

namespace Unary

def all : List Unary := [.not, .plus, .minus, .squareRoot, .cubeRoot, .square, .cube]

def symbol : Unary → Char
  | .not => '!'
  | .plus => '+'
  | .minus => '-'
  | .squareRoot => '√'
  | .cubeRoot => '∛'
  | .square => '²'
  | .cube => '³'

def priority : Unary → Nat
  | .not | .plus | .minus => 14
  | .squareRoot | .cubeRoot | .square | .cube => 13

/-- Whether the operator stands after its operand. -/
def isPower : Unary → Bool
  | .square | .cube => true
  | _ => false

def apply : Unary → Scalar → Scalar
  | .not, a => Scalar.ofBool (a == 0.0)
  | .plus, a => a
  | .minus, a => -a
  | .squareRoot, a => a.sqrt
  | .cubeRoot, a => a.pow (1.0 / 3.0)
  | .square, a => a * a
  | .cube, a => a * a * a

end Unary

namespace Binary

def all : List Binary :=
  [.or, .and, .equal, .unequal, .less, .lessEqual, .greater, .greaterEqual, .add, .subtract,
    .multiply, .times, .divide, .over, .modulo, .power]

def symbol : Binary → Char
  | .or => '|'
  | .and => '&'
  | .equal => '='
  | .unequal => '≠'
  | .less => '<'
  | .lessEqual => '≤'
  | .greater => '>'
  | .greaterEqual => '≥'
  | .add => '+'
  | .subtract => '-'
  | .multiply => '*'
  | .times => '×'
  | .divide => '/'
  | .over => '÷'
  | .modulo => '%'
  | .power => '^'

def priority : Binary → Nat
  | .or => 1
  | .and => 2
  | .equal | .unequal => 3
  | .less | .lessEqual | .greater | .greaterEqual => 4
  | .add | .subtract => 10
  | .multiply | .times | .divide | .over | .modulo => 11
  | .power => 12

def apply : Binary → Scalar → Scalar → Scalar
  | .or, a, b => Scalar.ofBool (a != 0.0 || b != 0.0)
  | .and, a, b => Scalar.ofBool (a != 0.0 && b != 0.0)
  | .equal, a, b => Scalar.ofBool (a == b)
  | .unequal, a, b => Scalar.ofBool (a != b)
  | .less, a, b => Scalar.ofBool (a < b)
  | .lessEqual, a, b => Scalar.ofBool (a ≤ b)
  | .greater, a, b => Scalar.ofBool (b < a)
  | .greaterEqual, a, b => Scalar.ofBool (b ≤ a)
  | .add, a, b => a + b
  | .subtract, a, b => a - b
  | .multiply, a, b | .times, a, b => a * b
  | .divide, a, b | .over, a, b => a / b
  | .modulo, a, b => Scalar.remainder a b
  | .power, a, b => a.pow b

end Binary

/-- Which of two neighbours of equal priority acts first. -/
inductive Associativity where
  | left
  | right
  deriving DecidableEq, Repr

/-- An operator of either sort. -/
inductive Operator where
  | unary (op : Unary)
  | binary (op : Binary)
  deriving DecidableEq, Repr

namespace Operator

def symbol : Operator → Char
  | .unary op => op.symbol
  | .binary op => op.symbol

def priority : Operator → Nat
  | .unary op => op.priority
  | .binary op => op.priority

/-- Operators before their operand and exponentiation group to the right, all
    others to the left. -/
def associativity : Operator → Associativity
  | .unary op => if op.isPower then .left else .right
  | .binary .power => .right
  | .binary _ => .left

/-- The number of operands. -/
def arity : Operator → Nat
  | .unary _ => 1
  | .binary _ => 2

def isUnary : Operator → Bool
  | .unary _ => true
  | .binary _ => false

/-- Whether `head`, which waits for its right operand, acts before `op` does. -/
def yieldsTo (op head : Operator) : Bool :=
  match op.associativity with
  | .left => op.priority ≤ head.priority
  | .right => op.priority < head.priority

/-- The unary operator with a symbol. -/
def unary? (c : Char) : Option Unary := Unary.all.find? (·.symbol == c)

/-- The binary operator with a symbol. -/
def binary? (c : Char) : Option Binary := Binary.all.find? (·.symbol == c)

/-- The operator with a symbol, the binary one for `+` and `-`. -/
def ofSymbol? (c : Char) : Option Operator :=
  match binary? c with
  | some op => some (.binary op)
  | none => (unary? c).map .unary

/-- The comparison that is written as an operator followed by `=`. -/
def beforeEquals? : Operator → Option Binary
  | .unary .not => some .unequal
  | .binary .less => some .lessEqual
  | .binary .greater => some .greaterEqual
  | _ => none

/-- The name of an operator in reports. -/
def name : Operator → String
  | .unary op => "unary " ++ op.symbol.toString
  | .binary op => "binary " ++ op.symbol.toString

end Operator

end TurtleGraphics
