import TurtleGraphics.Expression.Rpn

/-!
# Evaluation

A program in reverse Polish form is evaluated against something that knows the
values of variables. Reading a variable may change that context, since one of
the variables is a random number, so the context is threaded through.

Evaluation never fails loudly: problems are returned beside the value, and where
there is no value the command that asked for it falls back to a default.

## Main definitions

* `Variables`: What evaluation needs from its surroundings.
* `Eval`: Computations that read variables and meet problems.
* `clampResult`: The permitted result that is nearest to a value.
* `evaluate`: The value of a program.

## Theorems

* `clampResult_of_within`, `clampResult_of_below`, `clampResult_of_above`: A value in the
  permitted range stays what it is, and any other becomes the nearer end of the range.
-/

namespace TurtleGraphics

/-- Contexts in which variables can be read. -/
class Variables (σ : Type) where
  /-- The value of a variable, if it has one, and the context after reading. -/
  read : String → σ → Option Scalar × σ

/-- A context without variables. -/
instance : Variables Unit where
  read _ _ := (none, ())

/-- What a computation leaves behind. -/
structure Evaluated (σ α : Type) where
  value : α
  faults : List Fault
  context : σ

/-- Computations that read variables of a context `σ` and meet problems. -/
def Eval (σ α : Type) : Type := σ → Evaluated σ α

namespace Eval

variable {σ α β : Type}

/-- A value that needs no evaluation. -/
def pure (a : α) : Eval σ α := fun s => ⟨a, [], s⟩

/-- One computation after another; the problems of the first come first. -/
def bind (x : Eval σ α) (f : α → Eval σ β) : Eval σ β := fun s =>
  let a := x s
  let b := f a.value a.context
  ⟨b.value, a.faults ++ b.faults, b.context⟩

instance : Monad (Eval σ) where
  pure := Eval.pure
  bind := Eval.bind

@[simp]
theorem pure_apply (a : α) (s : σ) : (Pure.pure a : Eval σ α) s = ⟨a, [], s⟩ := rfl

@[simp]
theorem bind_apply (x : Eval σ α) (f : α → Eval σ β) (s : σ) :
    (x >>= f) s =
      ⟨(f (x s).value (x s).context).value,
        (x s).faults ++ (f (x s).value (x s).context).faults,
        (f (x s).value (x s).context).context⟩ := rfl

/-- A problem met before everything else. -/
def withFault (f : Fault) (r : Evaluated σ α) : Evaluated σ α :=
  { r with faults := f :: r.faults }

end Eval

/-- The range of results is that of 32-bit signed integers. -/
def minResult : Scalar := -2147483648.0

@[inherit_doc minResult]
def maxResult : Scalar := 2147483647.0

/-- The nearest permitted result. -/
def clampResult (v : Scalar) : Scalar :=
  if v < minResult then minResult else if maxResult < v then maxResult else v

theorem clampResult_of_within {v : Scalar} (hlower : ¬ v < minResult) (hupper : ¬ maxResult < v) :
    clampResult v = v := by
  rw [clampResult, if_neg hlower, if_neg hupper]

theorem clampResult_of_below {v : Scalar} (h : v < minResult) : clampResult v = minResult := by
  rw [clampResult, if_pos h]

/-- The lower end of the range is tried first, and does not apply: zero is between the ends. -/
theorem clampResult_of_above {v : Scalar} (h : maxResult < v) : clampResult v = maxResult := by
  have hlower : ¬ v < minResult :=
    Scalar.not_lt_of_zero_between (by decide +kernel) (by decide +kernel) h
  rw [clampResult, if_neg hlower, if_pos h]

/-- What the values left at the end of a program amount to: exactly one finite
    value is a result, brought into the permitted range. -/
def conclude : List Scalar → Option Scalar × List Fault
  | [] => (none, [])
  | [v] =>
    if v.isFinite then
      (some (clampResult v), if maxResult < v || v < minResult then [.truncated] else [])
    else (none, [.notNumber])
  | _ => (none, [.operatorExpected])

section

variable {σ : Type} [Variables σ]

/-- Runs a program on a stack of values, latest value first. A variable without
    a value is reported and reads as zero; an operator without enough operands
    ends the evaluation. -/
def evaluateFrom : List Rpn → List Scalar → Eval σ (Option Scalar)
  | [], stack, s =>
    let (value, faults) := conclude stack
    ⟨value, faults, s⟩
  | .number v :: rest, stack, s => evaluateFrom rest (v :: stack) s
  | .variable name :: rest, stack, s =>
    match Variables.read name s with
    | (some v, s) => evaluateFrom rest (v :: stack) s
    | (none, s) => Eval.withFault (.undefinedVariable name) (evaluateFrom rest (0.0 :: stack) s)
  | .apply (.unary op) :: rest, a :: stack, s => evaluateFrom rest (op.apply a :: stack) s
  | .apply (.binary op) :: rest, b :: a :: stack, s =>
    evaluateFrom rest (op.apply a b :: stack) s
  | .apply op :: _, _, s => ⟨none, [.missingOperands op.symbol], s⟩

/-- The value of a program. -/
def evaluate (program : List Rpn) : Eval σ (Option Scalar) := evaluateFrom program []

end

end TurtleGraphics
