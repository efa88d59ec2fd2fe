import TurtleGraphics.Scalar

/-!
# Pictures

A picture is a canvas size and a sequence of shapes in the order in which they
are painted. Coordinates are those of the display: the origin is the upper left
corner and `y` grows downwards.

## Main definitions

* `Point`, `Size`, `Color`: Positions, canvas sizes and colors.
* `PathElement`, `Path`: Lines with a stroke and possibly a fill.
* `Shape`, `Picture`: What is painted, and all of it in order.
-/

namespace TurtleGraphics

/-- A position. -/
structure Point where
  x : Scalar := 0.0
  y : Scalar := 0.0

/-- Two points are the same when their coordinates are equal numbers: the two
    zeros are equal, and a coordinate that is no number equals nothing. -/
instance : BEq Point where
  beq p q := p.x == q.x && p.y == q.y

/-- The size of a canvas. -/
structure Size where
  width : Scalar
  height : Scalar

/-- A color by its red, green and blue parts and its opacity. -/
structure Color where
  r : Scalar
  g : Scalar
  b : Scalar
  a : Scalar

namespace Color

/-- A fully opaque color with three equal parts. -/
def gray (v : Scalar) : Color := ⟨v, v, v, 1.0⟩

def black : Color := ⟨0.0, 0.0, 0.0, 1.0⟩

end Color

/-- How a path is finished. -/
inductive FlushMode where
  /-- Left open and not filled. -/
  | plain
  /-- Closed and not filled. -/
  | close
  /-- Left open and filled with the stroke color. -/
  | fill
  deriving DecidableEq, Repr

/-- One element of a path. -/
inductive PathElement where
  | moveTo (p : Point)
  | lineTo (p : Point)
  | quadTo (c p : Point)
  | curveTo (c d p : Point)
  | close

/-- Whether an element closes the path. -/
def PathElement.isClose : PathElement → Bool
  | .close => true
  | _ => false

/-- A path with its stroke. A path without a fill leaves its inside alone. -/
structure Path where
  elements : Array PathElement
  stroke : Color
  width : Scalar
  fill : Option Color

/-- Whether the last element closes the path. -/
def Path.isClosed (p : Path) : Bool := p.elements.back?.any PathElement.isClose

/-- One thing that is painted. -/
inductive Shape where
  | path (p : Path)
  /-- One color over the whole canvas. -/
  | background (c : Color)

/-- The path of a shape, if it is one. -/
def Shape.path? : Shape → Option Path
  | .path p => some p
  | .background _ => none

/-- A canvas with its shapes in the order of painting. -/
structure Picture where
  size : Size
  shapes : Array Shape := #[]

namespace Picture

/-- Paints one more shape. -/
def push (p : Picture) (s : Shape) : Picture := { p with shapes := p.shapes.push s }

def isEmpty (p : Picture) : Bool := p.shapes.isEmpty

/-- The paths in the order of painting. -/
def paths (p : Picture) : List Path := p.shapes.toList.filterMap Shape.path?

end Picture

end TurtleGraphics
