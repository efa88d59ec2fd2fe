/-!
# Built-In Variables

Seven variables show the state of the turtle and its canvas. They are looked up
before any variable that a program has set, so a program cannot hide them.

## Main definitions

* `Builtin`: The built-in variables.
* `Builtin.ofName?`: The built-in variable with a name.
-/

namespace TurtleGraphics

/-- The variables computed from the state of the turtle. -/
inductive Builtin where
  | x
  | y
  | angle
  | step
  | width
  | height
  | random
  deriving DecidableEq, Repr

namespace Builtin

def all : List Builtin := [.x, .y, .angle, .step, .width, .height, .random]

/-- The name of a built-in variable in programs. -/
def name : Builtin → String
  | .x => "X"
  | .y => "Y"
  | .angle => "A"
  | .step => "S"
  | .width => "WIDTH"
  | .height => "HEIGHT"
  | .random => "RND"

/-- The built-in variable with a given name. -/
def ofName? (s : String) : Option Builtin := all.find? (·.name == s)

end Builtin

end TurtleGraphics
