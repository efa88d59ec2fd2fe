import TurtleGraphics.Log
import TurtleGraphics.Painter
import TurtleGraphics.Program.Command
import TurtleGraphics.Random
import TurtleGraphics.Turtle.Bindings
import TurtleGraphics.Turtle.Builtin

/-!
# The State of the Turtle

All that a running program can read or change.

The turtle lives in coordinates of its own: the origin is the middle of the
canvas and `y` grows upwards. Only the painter works in display coordinates.

Variables live in frames. The global frame is always there; entering the body of
a loop or of a procedure puts a frame on top. A variable is looked for from the
innermost frame outwards.

## Main definitions

* `Pose`: Position and heading.
* `Scopes`: The frames of variables.
* `Procedure`: A defined procedure.
* `Turtle`: The state.
* `Turtle.observe`: Evaluating against the state.
-/

namespace TurtleGraphics

/-- A position and a heading in degrees, counterclockwise from the right. -/
structure Pose where
  position : Point := {}
  heading : Scalar := 0.0

/-- The global frame of variables and the frames on top of it, innermost
    first. -/
structure Scopes where
  globals : Bindings := {}
  locals : List Bindings := []
  /-- The number of frames on top of the global one, which every call asks for. -/
  depth : Nat := 0
  depth_eq : depth = locals.length := by rfl

namespace Scopes

/-- The value of a variable in the innermost frame that binds it. -/
def get? (s : Scopes) (name : String) : Option Scalar :=
  match s.locals.findSome? (·.get? name) with
  | some v => some v
  | none => s.globals.get? name

/-- Puts a frame on top. -/
def push (s : Scopes) (frame : Bindings) : Scopes :=
  { s with
    locals := frame :: s.locals
    depth := s.depth + 1
    depth_eq := by simp [s.depth_eq] }

/-- Takes the frame on top away. -/
def pop (s : Scopes) : Scopes :=
  { s with
    locals := s.locals.tail
    depth := s.depth - 1
    depth_eq := by simp [s.depth_eq] }

/-- Sets a variable in the global frame, wherever the program is. -/
def setGlobal (s : Scopes) (name : String) (v : Scalar) : Scopes :=
  { s with globals := s.globals.set name v }

@[simp]
theorem pop_push (s : Scopes) (frame : Bindings) : (s.push frame).pop = s := rfl

@[simp]
theorem depth_push (s : Scopes) (frame : Bindings) : (s.push frame).depth = s.depth + 1 := rfl

@[simp]
theorem locals_setGlobal (s : Scopes) (name : String) (v : Scalar) :
    (s.setGlobal name v).locals = s.locals := rfl

end Scopes

/-- A defined procedure. A parameter without a name takes its argument and drops
    it. -/
structure Procedure where
  params : List (Option String)
  body : List Command

namespace Procedure

/-- Binds parameters to arguments by position. Missing arguments are zero,
    superfluous ones are dropped, and of two parameters with the same name the
    later one counts. -/
def bind : List (Option String) → List Scalar → Bindings → Bindings
  | [], _, frame => frame
  | param :: params, args, frame =>
    let frame := match param with
      | some name => frame.set name (args.headD 0.0)
      | none => frame
    bind params args.tail frame

/-- The frame in which the body runs. -/
def frame (p : Procedure) (args : List Scalar) : Bindings := bind p.params args {}

end Procedure

/-- The state of a running program. -/
structure Turtle where
  painter : Painter
  log : Log
  random : Random := {}
  /-- The operations charged so far. -/
  operations : Nat := 0
  /-- How many operations may be charged, if there is a bound. -/
  budget : Option Nat
  size : Size
  /-- The display coordinates of the origin. -/
  origin : Point
  pose : Pose := {}
  step : Scalar := 20.0
  /-- The saved poses, latest first. -/
  stack : List Pose := []
  /-- How deep calls may nest. -/
  limit : Scalar := 100.0
  scopes : Scopes := {}
  procedures : Table Procedure := {}

namespace Turtle

/-- The amount of a turn that names none. -/
def turnIncrement : Scalar := 45.0

/-- How many poses can be saved. -/
def maxSaved : Nat := 1000

/-- The deepest nesting of calls that a program can ask for. -/
def maxDepth : Nat := 1000

/-- The name of the counter in the body of a loop. -/
def counterName : String := "IT"

/-- A turtle in front of an empty canvas, facing right. -/
def ofSize (size : Size) (budget : Nat) (log : Log := {}) : Turtle :=
  { painter := .ofSize size
    log
    budget := some budget
    size
    origin := ⟨Scalar.floor (size.width / 2.0), Scalar.floor (size.height / 2.0)⟩ }

/-- Lets every further operation through. -/
def liftBudget (t : Turtle) : Turtle := { t with budget := none }

/-- Records a problem. -/
def report (t : Turtle) (f : Fault) : Turtle := { t with log := t.log.report f }

/-- A global variable, whatever other frames say. -/
def global? (t : Turtle) (name : String) : Option Scalar := t.scopes.globals.get? name

/-- The frames on top of the global one that a call must stay below. -/
def allowedDepth (t : Turtle) : Nat := Scalar.wholeAbove maxDepth t.limit

/-- The value of a built-in variable. Reading the random number draws it. -/
def readBuiltin (t : Turtle) : Builtin → Scalar × Turtle
  | .x => (t.pose.position.x, t)
  | .y => (t.pose.position.y, t)
  | .angle => (t.pose.heading, t)
  | .step => (t.step, t)
  | .width => (t.size.width, t)
  | .height => (t.size.height, t)
  | .random =>
    let (v, random) := t.random.next
    (v, { t with random })

/-- The value of a variable: built-in ones come first. -/
def read (name : String) (t : Turtle) : Option Scalar × Turtle :=
  match Builtin.ofName? name with
  | some b =>
    let (v, t) := t.readBuiltin b
    (some v, t)
  | none => (t.scopes.get? name, t)

instance : Variables Turtle where
  read := read

/-- Evaluates against the state; the problems met go into the log. -/
def observe {α : Type} (x : Eval Turtle α) (t : Turtle) : α × Turtle :=
  let r := x t
  let t := r.context
  (r.value, { t with log := t.log.reportAll r.faults })

/-- Display coordinates of a position of the turtle. -/
def display (t : Turtle) (p : Point) : Point := ⟨t.origin.x + p.x, t.origin.y - p.y⟩

/-- Moves to a position, with a line to it when the pen is down. -/
def travel (t : Turtle) (target : Point) (penDown : Bool) : Turtle :=
  let start := t.display t.pose.position
  let stop := t.display target
  let t := { t with pose := { t.pose with position := target } }
  if penDown then { t with painter := t.painter.line start stop } else t

end Turtle

end TurtleGraphics
