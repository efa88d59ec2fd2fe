import TurtleGraphics.Picture

/-!
# The Painter

Lines are collected into one pending path. A line that starts where the previous
one ended continues it; any other line starts a new part of the path. The pending
path becomes a shape of the picture when it is flushed, with the color and width
of that moment. Since every change of style flushes first, these are also the
color and width with which its lines were drawn.

## Main definitions

* `Painter`: The picture so far and the pending path.
* `Painter.line`, `Painter.flush`: Drawing and finishing a path.
* `Painter.finish`: The finished picture.
* `Painter.Call`, `Painter.perform`: What a painter can be asked to do.
-/

namespace TurtleGraphics

/-- A picture in the making. -/
structure Painter where
  picture : Picture
  /-- The elements of the path that is not finished yet. -/
  pending : Array PathElement := #[]
  /-- Where the pending path ends. -/
  last : Option Point := none
  color : Color := .black
  width : Scalar := 1.0

namespace Painter

/-- A painter in front of an empty canvas. -/
def ofSize (size : Size) : Painter := { picture := { size } }

/-- Draws a line. -/
def line (p : Painter) (start stop : Point) : Painter :=
  let continues := p.last.any (· == start)
  let pending := if continues then p.pending else p.pending.push (.moveTo start)
  { p with pending := pending.push (.lineTo stop), last := some stop }

/-- Finishes the pending path, if there is one. -/
def flush (p : Painter) (mode : FlushMode) : Painter :=
  if p.pending.isEmpty then p
  else
    let path : Path :=
      { elements := if mode = .close then p.pending.push .close else p.pending
        stroke := p.color
        width := p.width
        fill := if mode = .fill then some p.color else none }
    { p with picture := p.picture.push (.path path), pending := #[], last := none }

/-- Draws in another color from now on. -/
def setColor (p : Painter) (color : Color) : Painter := { p.flush .plain with color }

/-- Draws in another width from now on. -/
def setWidth (p : Painter) (width : Scalar) : Painter := { p.flush .plain with width }

/-- Paints the whole canvas. What was drawn before lies underneath. -/
def background (p : Painter) (color : Color) : Painter :=
  let p := p.flush .plain
  { p with picture := p.picture.push (.background color) }

/-- The finished picture. -/
def finish (p : Painter) : Picture := (p.flush .plain).picture

/-- What a painter can be asked to do. -/
inductive Call where
  | line (start stop : Point)
  | flush (mode : FlushMode)
  | color (c : Color)
  | width (w : Scalar)
  | background (c : Color)

/-- Does what is asked. -/
def perform (p : Painter) : Call → Painter
  | .line start stop => p.line start stop
  | .flush mode => p.flush mode
  | .color c => p.setColor c
  | .width w => p.setWidth w
  | .background c => p.background c

/-- Does all that is asked, in order. -/
def performAll (p : Painter) (calls : List Call) : Painter := calls.foldl perform p

end Painter

end TurtleGraphics
