import TurtleGraphics.Expression.Context
import TurtleGraphics.Expression.Evaluate

/-!
# Expressions

An expression without variables is evaluated once, when it is read; one with
variables is kept in reverse Polish form and evaluated whenever it is used.

## Main definitions

* `Expression`: A value, or a program for one.
* `Expression.parse`: The expression of a text.
* `Arg`: An expression with a default.
-/

namespace TurtleGraphics

/-- A value known when it was read, or a program that depends on variables. -/
inductive Expression where
  | constant (value : Scalar)
  | deferred (program : List Rpn)

namespace Expression

/-- The expression of a text and the problems met in reading it. There is none
    when the text is empty, when a bracket stays open, or when a value without
    variables cannot be computed. -/
def parse (text : List Char) : Option Expression × List Fault :=
  let s := tokenize text
  match Rpn.ofTokens s.tokens with
  | (none, faults) => (none, s.faults ++ faults)
  | (some program, faults) =>
    if s.tokens.any Token.isVariable then (some (.deferred program), s.faults ++ faults)
    else
      let r := evaluate program ()
      (r.value.map constant, s.faults ++ faults ++ r.faults)

/-- The value, if it was known when the expression was read. -/
def constant? : Expression → Option Scalar
  | .constant v => some v
  | .deferred _ => none

/-- The value in a context. -/
def eval {σ : Type} [Variables σ] : Expression → Eval σ (Option Scalar)
  | .constant v => Eval.pure (some v)
  | .deferred program => evaluate program

end Expression

/-- An expression and the value that stands in for it when it has none. -/
structure Arg where
  expr : Expression
  default : Scalar

namespace Arg

/-- A missing expression is the constant `default`. -/
def ofOption (expr : Option Expression) (default : Scalar) : Arg :=
  ⟨expr.getD (.constant default), default⟩

/-- An argument with a fixed value. -/
def constant (v : Scalar) : Arg := ⟨.constant v, v⟩

/-- The value in a context. -/
def eval {σ : Type} [Variables σ] (a : Arg) : Eval σ Scalar := fun s =>
  let r := a.expr.eval s
  ⟨r.value.getD a.default, r.faults, r.context⟩

end Arg

end TurtleGraphics
