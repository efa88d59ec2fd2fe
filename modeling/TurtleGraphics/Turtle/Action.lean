import TurtleGraphics.Turtle.State

/-!
# Actions

An action is an instruction whose arguments have been evaluated: one thing that
is done to the turtle. Every action is charged to the budget before it takes
place; when the budget is used up nothing happens and the run stops.

## Main definitions

* `Action`: What can be done to the turtle.
* `Action.apply`: The effect of an action.
* `Instruction.resolve`: The action of an instruction.
* `Progress`: A turtle that goes on, or one that was stopped.
* `Turtle.charge`, `Turtle.perform`: Charging, and acting at a charge.
* `Turtle.drawCursor`: The glyph at the pose of the turtle.
-/

namespace TurtleGraphics

/-- One thing that is done to the turtle. -/
inductive Action where
  | turn (amount : Option Scalar) (clockwise : Bool)
  | heading (angle : Scalar)
  | forward (distance : Option Scalar) (penDown : Bool)
  | moveTo (target : Point) (penDown : Bool)
  | push
  | pop
  | step (length : Scalar)
  | color (c : Color)
  | width (w : Scalar)
  | flush (mode : FlushMode)
  | background (c : Color)
  | limit (depth : Scalar)
  | assign (name : String) (value : Scalar)
  | define (name : String) (procedure : Procedure)

section

variable {σ : Type} [Variables σ]

/-- The values of arguments from left to right. -/
def Arg.evalAll : List Arg → Eval σ (List Scalar)
  | [] => Eval.pure []
  | a :: rest => do
    let v ← a.eval
    let vs ← evalAll rest
    return v :: vs

/-- The color of its arguments. -/
def ColorArgs.eval : ColorArgs → Eval σ Color
  | .gray v => do return .gray (← v.eval)
  | .rgba r g b a => do
    let r ← r.eval
    let g ← g.eval
    let b ← b.eval
    return ⟨r, g, b, ← a.eval⟩

/-- Evaluates the arguments of an instruction from left to right. -/
def Instruction.resolve : Instruction → Eval σ Action
  | .turn none clockwise => Eval.pure (.turn none clockwise)
  | .turn (some amount) clockwise => do return .turn (← amount.eval) clockwise
  | .heading angle => do return .heading (← angle.eval)
  | .forward none penDown => Eval.pure (.forward none penDown)
  | .forward (some distance) penDown => do return .forward (some (← distance.eval)) penDown
  | .moveTo x y penDown => do
    let x ← x.eval
    let y ← y.eval
    return .moveTo ⟨x, y⟩ penDown
  | .push => Eval.pure .push
  | .pop => Eval.pure .pop
  | .step length => do return .step (← length.eval)
  | .color args => do return .color (← args.eval)
  | .width w => do return .width (← w.eval)
  | .flush mode => Eval.pure (.flush mode)
  | .background args => do return .background (← args.eval)
  | .limit depth => do return .limit (Scalar.floor (← depth.eval))
  | .assign name value => do return .assign name (← value.eval)

end

namespace Turtle

/-- Radians in one degree. -/
def radiansPerDegree : Scalar := 0.017453292519943295

/-- The heading after a turn, less whole turns. -/
def turned (heading amount : Scalar) (clockwise : Bool) : Scalar :=
  Scalar.remainder (if clockwise then heading - amount else heading + amount) 360.0

/-- The position at a distance along the heading. -/
def ahead (pose : Pose) (distance : Scalar) : Point :=
  let angle := pose.heading * radiansPerDegree
  ⟨pose.position.x + angle.cos * distance, pose.position.y + angle.sin * distance⟩

/-- Saves the pose, unless too many are saved. -/
def savePose (t : Turtle) : Turtle :=
  if t.stack.length < maxSaved then { t with stack := t.pose :: t.stack } else t.report .stackFull

/-- Goes back to the latest saved pose, if there is one. -/
def restorePose (t : Turtle) : Turtle :=
  match t.stack with
  | pose :: stack => { t with pose, stack }
  | [] => t.report .stackEmpty

/-- Sets how deep calls may nest, up to the hard maximum. -/
def setLimit (t : Turtle) (depth : Scalar) : Turtle :=
  let cap := Scalar.ofNat maxDepth
  { t with limit := if depth < cap then depth else cap }

end Turtle

/-- The effect of an action. -/
def Action.apply (t : Turtle) : Action → Turtle
  | .turn amount clockwise =>
    let angle := Turtle.turned t.pose.heading (amount.getD Turtle.turnIncrement) clockwise
    { t with pose := { t.pose with heading := angle } }
  | .heading angle => { t with pose := { t.pose with heading := angle } }
  | .forward distance penDown => t.travel (Turtle.ahead t.pose (distance.getD t.step)) penDown
  | .moveTo target penDown => t.travel target penDown
  | .push => t.savePose
  | .pop => t.restorePose
  | .step length => { t with step := length }
  | .color c => { t with painter := t.painter.setColor c }
  | .width w => { t with painter := t.painter.setWidth w.abs }
  | .flush mode => { t with painter := t.painter.flush mode }
  | .background c => { t with painter := t.painter.background c }
  | .limit depth => t.setLimit depth
  | .assign name v => { t with scopes := t.scopes.setGlobal name v }
  | .define name procedure => { t with procedures := t.procedures.set name procedure }

/-- A turtle that goes on, or one that was stopped by the bound on its
    operations. What was done before stays done. -/
inductive Progress where
  | running (t : Turtle)
  | stopped (bound : Nat) (t : Turtle)

namespace Progress

/-- The turtle, whether it goes on or not. -/
def turtle : Progress → Turtle
  | .running t => t
  | .stopped _ t => t

/-- Goes on with something else unless it was stopped. -/
@[inline]
def andThen (p : Progress) (next : Turtle → Progress) : Progress :=
  match p with
  | .running t => next t
  | .stopped bound t => .stopped bound t

/-- Changes the turtle, whether it goes on or not. -/
@[inline]
def map (f : Turtle → Turtle) : Progress → Progress
  | .running t => .running (f t)
  | .stopped bound t => .stopped bound (f t)

@[simp]
theorem andThen_running (t : Turtle) (next : Turtle → Progress) :
    (running t).andThen next = next t := rfl

@[simp]
theorem andThen_stopped (bound : Nat) (t : Turtle) (next : Turtle → Progress) :
    (stopped bound t).andThen next = stopped bound t := rfl

theorem andThen_assoc (p : Progress) (f g : Turtle → Progress) :
    (p.andThen f).andThen g = p.andThen fun t => (f t).andThen g := by
  cases p <;> rfl

@[simp]
theorem turtle_map (f : Turtle → Turtle) (p : Progress) : (p.map f).turtle = f p.turtle := by
  cases p <;> rfl

/-- The turtle with a stop recorded in its log. -/
def settled : Progress → Turtle
  | .running t => t
  | .stopped bound t => t.report (.limitExceeded bound)

end Progress

namespace Turtle

/-- Charges one operation. -/
def charge (t : Turtle) : Progress :=
  match t.budget with
  | some bound =>
    if bound ≤ t.operations then .stopped bound t
    else .running { t with operations := t.operations + 1 }
  | none => .running { t with operations := t.operations + 1 }

/-- Acts at a charge. -/
def perform (t : Turtle) (a : Action) : Progress := t.charge.andThen fun t => .running (a.apply t)

/-- Acts one by one until stopped. -/
def performAll : List Action → Turtle → Progress
  | [], t => .running t
  | a :: rest, t => (t.perform a).andThen (performAll rest)

/-- How large the glyph is drawn. -/
def glyphScale : Scalar := 0.6

/-- An arrow around the pose, in a color and width of its own. -/
def glyph : List Action :=
  let side (amount length : Scalar) : List Action :=
    [.turn (some amount) false, .forward (some (length * glyphScale)) true]
  [.color ⟨0.0, 200.0, 0.0, 0.6⟩, .width 1.0] ++ side 90.0 10.0 ++ side (-120.0) 20.0 ++
    side (-120.0) 20.0 ++ side (-120.0) 10.0 ++ side (-90.0) 16.0

/-- Draws the glyph at the pose of the turtle. -/
def drawCursor (t : Turtle) : Progress := performAll glyph t

end Turtle

end TurtleGraphics
