import TurtleGraphics.Expression.Token

/-!
# Reverse Polish Form

Expressions are kept with every operator after its operands. Tokens are brought
into this order with two stacks: operands go straight to the output, and an
operator waits until an operator arrives that lets it act first, or until its
bracket is closed.

A closing bracket that matches nothing sends all waiting operators to the output
and leaves a warning. An opening bracket that is never closed makes the whole
expression unusable.

## Main definitions

* `Rpn`: One step of a program in reverse Polish form.
* `Yard`: The output and the waiting operators.
* `Yard.accept`: What one token does.
* `Rpn.ofTokens`: The program of a token sequence.
-/

namespace TurtleGraphics

/-- One step of a program in reverse Polish form. -/
inductive Rpn where
  | number (value : Scalar)
  | variable (name : String)
  | apply (op : Operator)

/-- What can wait on the operator stack. -/
inductive Waiting where
  | bracket
  | operator (op : Operator)
  deriving DecidableEq, Repr

/-- The output so far, latest step first; the stack of what waits, latest entry
    first; and whether a closing bracket has matched nothing. -/
structure Yard where
  output : List Rpn := []
  stack : List Waiting := []
  stray : Bool := false

namespace Yard

/-- Sends waiting operators to the output as long as `op` yields to them. -/
def release (op : Operator) : List Waiting → List Rpn → List Rpn × List Waiting
  | .operator head :: stack, output =>
    if op.yieldsTo head then release op stack (.apply head :: output)
    else (output, .operator head :: stack)
  | stack, output => (output, stack)

/-- Sends waiting operators to the output up to the latest open bracket, which is
    removed. Without such a bracket the closing one is stray. -/
def close : List Waiting → List Rpn → Bool → Yard
  | .operator head :: stack, output, stray => close stack (.apply head :: output) stray
  | .bracket :: stack, output, stray => ⟨output, stack, stray⟩
  | [], output, _ => ⟨output, [], true⟩

/-- What one token does. -/
def accept (y : Yard) : Token → Yard
  | .number v => { y with output := .number v :: y.output }
  | .variable name => { y with output := .variable name :: y.output }
  | .operator op =>
    let (output, stack) := release op y.stack y.output
    { y with output, stack := .operator op :: stack }
  | .opening => { y with stack := .bracket :: y.stack }
  | .closing => close y.stack y.output y.stray

/-- Sends all that still waits to the output. -/
def drain : List Waiting → List Rpn → List Rpn
  | .operator op :: stack, output => drain stack (.apply op :: output)
  | .bracket :: stack, output => drain stack output
  | [], output => output

/-- Whether an opening bracket still waits to be closed. -/
def unclosed (y : Yard) : Bool := y.stack.contains .bracket

end Yard

/-- The program of a token sequence, unless a bracket stays open, and the
    problems with its brackets. -/
def Rpn.ofTokens (tokens : List Token) : Option (List Rpn) × List Fault :=
  let y := tokens.foldl Yard.accept {}
  let stray := if y.stray then [Fault.unmatchedClosing] else []
  if y.unclosed then (none, stray ++ [.unmatchedOpening])
  else (some (Yard.drain y.stack y.output).reverse, stray)

end TurtleGraphics
