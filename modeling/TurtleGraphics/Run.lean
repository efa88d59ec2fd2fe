import TurtleGraphics.Turtle.Execute

/-!
# Whole Runs

A run reads a program, executes it with a fresh turtle and keeps the picture and
the log. Nothing carries over from one run to the next. Running out of operations
is no failure: it is recorded as the last entry of the log, and everything drawn
so far is kept.

## Main definitions

* `Options`: The settings of a run.
* `Report`: What a run leaves behind.
* `run`: Runs a program.
-/

namespace TurtleGraphics

/-- The settings of a run. -/
structure Options where
  width : Scalar := 500.0
  height : Scalar := 500.0
  /-- How many operations the program may take. -/
  maxOperations : Nat := 1000000
  /-- Whether the turtle is drawn where it ends up. -/
  cursor : Bool := false

/-- What a run leaves behind. -/
structure Report where
  operations : Nat := 0
  log : Log := {}
  picture : Picture := { size := ⟨0.0, 0.0⟩ }

/-- The turtle at the end of a program, before the cursor is drawn. -/
def runProgram (options : Options) (source : String) : Progress :=
  let (commands, t) :=
    (Turtle.ofSize ⟨options.width, options.height⟩ options.maxOperations).load source
  runAll commands t

/-- The turtle with the cursor drawn on top, which is free of charge to the
    program: the bound on operations is lifted first. -/
def withCursor (t : Turtle) : Turtle := t.liftBudget.drawCursor.settled

/-- Runs a program. -/
def run (options : Options) (source : String) : Report :=
  let t := (runProgram options source).settled
  let t := if options.cursor then withCursor t else t
  { operations := t.operations, log := t.log, picture := t.painter.finish }

end TurtleGraphics
