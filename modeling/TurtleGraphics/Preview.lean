import TurtleGraphics.Run
import TurtleGraphics.Svg

/-!
# Previews

A preview is what an interactive host shows after each change of a program: the
picture, and a text with one line for each distinct diagnostic.

## Main definitions

* `Preview`: What is shown.
* `Preview.operationLimit`: The bound on operations that a host asks for.
* `Preview.lines`: The distinct diagnostics.
* `Preview.render`: The preview of a program.
-/

namespace TurtleGraphics

/-- What a host shows. -/
structure Preview where
  svg : String
  diagnostics : String
  hasError : Bool

namespace Preview

/-- The largest bound that can be asked for. -/
def largestLimit : Nat := Nat.pow 2 64 - 1

/-- Hosts give the bound as a scalar. It is rounded down; anything that is no
    positive number allows no operations. -/
def operationLimit (v : Scalar) : Nat :=
  match Scalar.parts v with
  | .infinite false => largestLimit
  | _ => min largestLimit (Scalar.wholeBelow v)

/-- The severity at the start of a line. -/
def label : Severity → String
  | .info => "info"
  | .warning => "warning"
  | .error => "error"

/-- The line of a diagnostic. -/
def line (d : Diagnostic) : String := label d.severity ++ " " ++ d.shown

/-- The lines of a log without repetitions, in the order of their first
    occurrence. -/
def lines (l : Log) : List String := (l.entries.toList.map line).eraseDups

/-- The preview of a report. -/
def ofReport (r : Report) : Preview :=
  { svg := Svg.render Svg.defaultPrecision r.picture
    diagnostics := "\n".intercalate (lines r.log)
    hasError := r.log.hasErrors }

/-- The preview of a program. -/
def render (source : String) (width height maxOperations : Scalar) (cursor : Bool) : Preview :=
  ofReport (run ⟨width, height, operationLimit maxOperations, cursor⟩ source)

end Preview

end TurtleGraphics
