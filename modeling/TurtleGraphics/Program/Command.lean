import TurtleGraphics.Expression.Basic
import TurtleGraphics.Picture

/-!
# Commands

A program is a list of commands. Instructions do one thing to the turtle;
the other commands repeat, guard, define or call lists of commands.

Arguments are kept as expressions. They are evaluated each time their command
runs, so that a body sees the current values of its variables.

## Main definitions

* `ColorArgs`: The arguments of a color.
* `Instruction`: Commands without a body.
* `Command`: All commands.
-/

namespace TurtleGraphics

/-- The arguments of a color: one value for a gray, or up to four parts. -/
inductive ColorArgs where
  | gray (v : Arg)
  | rgba (r g b a : Arg)

namespace ColorArgs

/-- One expression is a gray. Otherwise parts missing at the end are zero, a
    missing opacity is one, and what comes after the fourth is ignored. -/
def ofExpressions : List Expression → ColorArgs
  | [v] => .gray (.ofOption (some v) 0.0)
  | es =>
    .rgba (.ofOption es[0]? 0.0) (.ofOption es[1]? 0.0) (.ofOption es[2]? 0.0)
      (.ofOption es[3]? 1.0)

end ColorArgs

/-- The commands that do one thing. -/
inductive Instruction where
  /-- Turns by an amount, or by the usual increment. -/
  | turn (amount : Option Expression) (clockwise : Bool)
  /-- Sets the heading. -/
  | heading (angle : Arg)
  /-- Moves along the heading by a distance, or by one step. -/
  | forward (distance : Option Arg) (penDown : Bool)
  /-- Moves to a position. -/
  | moveTo (x y : Arg) (penDown : Bool)
  /-- Saves the pose. -/
  | push
  /-- Restores the latest saved pose. -/
  | pop
  /-- Sets the step length. -/
  | step (length : Arg)
  /-- Sets the stroke color. -/
  | color (args : ColorArgs)
  /-- Sets the stroke width. -/
  | width (width : Arg)
  /-- Finishes the path drawn so far. -/
  | flush (mode : FlushMode)
  /-- Paints the whole canvas. -/
  | background (args : ColorArgs)
  /-- Sets how deep calls may nest. -/
  | limit (depth : Arg)
  /-- Sets a variable. -/
  | assign (name : String) (value : Arg)

/-- The commands of a program. -/
inductive Command where
  | basic (i : Instruction)
  /-- Runs the body a number of times, which is evaluated once. -/
  | loop (count : Arg) (body : List Command)
  /-- Runs the body unless the test is zero. -/
  | condition (test : Arg) (body : List Command)
  /-- Defines a procedure. A parameter that is no name keeps its place. -/
  | define (name : String) (params : List (Option String)) (body : List Command)
  /-- Calls a procedure. -/
  | call (name : String) (args : List Arg)

/-- Back to the origin without drawing. -/
def Instruction.home : Instruction := .moveTo (.constant 0.0) (.constant 0.0) false

end TurtleGraphics
