import TurtleGraphics.Decimal.Fixed
import TurtleGraphics.Picture

/-!
# SVG Text

A picture is written as an SVG document: one element for each shape, in the order
of painting. Attributes stand in alphabetical order.

Coordinates and the size of the canvas are rounded to a number of decimal places
and written without superfluous zeros. Stroke widths and colors are written
exactly.

## Main definitions

* `trimZeros`: A decimal text without superfluous zeros.
* `Svg.coordinate`, `Svg.exact`: The two ways of writing a number.
* `Svg.pathData`: The elements of a path.
* `Svg.render`: The document of a picture.
-/

namespace TurtleGraphics

/-- A text without the copies of a character at its end. -/
def dropTrailing (c : Char) (s : List Char) : List Char := (s.reverse.dropWhile (· == c)).reverse

/-- A decimal text without zeros at the end of its fraction, without a point that
    nothing follows, and without a sign before a lone zero. -/
def trimZeros (s : List Char) : List Char :=
  let s := if s.contains '.' then dropTrailing '.' (dropTrailing '0' s) else s
  if s = ['-', '0'] then ['0'] else s

namespace Svg

/-- The number of decimal places that is used when none is asked for. -/
def defaultPrecision : Nat := 2

/-- A number rounded to at most `precision` decimal places. -/
def coordinate (precision : Nat) (v : Scalar) : String :=
  String.ofList (trimZeros (Scalar.fixedChars precision v))

/-- A number with all its digits. Zero has no sign. -/
def exact (v : Scalar) : String := if v == 0.0 then "0" else Scalar.text v

/-- A color with its four parts. -/
def color (c : Color) : String :=
  "rgba(" ++ exact c.r ++ ", " ++ exact c.g ++ ", " ++ exact c.b ++ ", " ++ exact c.a ++ ")"

/-- The two coordinates of a point. -/
def point (precision : Nat) (p : Point) : String :=
  coordinate precision p.x ++ " " ++ coordinate precision p.y

/-- An element of a path: a letter and its points. -/
def pathElement (precision : Nat) : PathElement → String
  | .moveTo p => "M" ++ point precision p
  | .lineTo p => "L" ++ point precision p
  | .quadTo c p => "Q" ++ point precision c ++ " " ++ point precision p
  | .curveTo c d p =>
    "C" ++ point precision c ++ " " ++ point precision d ++ " " ++ point precision p
  | .close => "Z"

/-- The elements of a path. -/
def pathData (precision : Nat) (elements : List PathElement) : String :=
  " ".intercalate (elements.map (pathElement precision))

/-- How a path is painted. -/
def style (p : Path) : String :=
  let fill := match p.fill with
    | some c => color c
    | none => "none"
  "fill: " ++ fill ++ "; stroke: " ++ color p.stroke ++ "; stroke-width: " ++ exact p.width

/-- One attribute with the space before it. -/
def attr (name value : String) : String := " " ++ name ++ "=\"" ++ value ++ "\""

/-- The element of a shape. -/
def shape (precision : Nat) : Shape → String
  | .path p =>
    "<path" ++ attr "d" (pathData precision p.elements.toList) ++ attr "style" (style p) ++ "/>"
  | .background c =>
    "<rect" ++ attr "fill" (color c) ++ attr "height" "100%" ++ attr "width" "100%" ++ "/>"

/-- The name and the attributes of the document. -/
def head (precision : Nat) (size : Size) : String :=
  let width := coordinate precision size.width
  let height := coordinate precision size.height
  "<svg" ++ attr "height" height ++ attr "viewBox" ("0 0 " ++ width ++ " " ++ height) ++
    attr "width" width ++ attr "xmlns" "http://www.w3.org/2000/svg"

/-- The document of a picture. Each shape stands on a line of its own. -/
def render (precision : Nat) (p : Picture) : String :=
  if p.isEmpty then head precision p.size ++ "/>"
  else
    head precision p.size ++ ">" ++
      String.join (p.shapes.toList.map fun s => "\n" ++ shape precision s) ++ "\n</svg>"

end Svg

end TurtleGraphics
