import TurtleGraphics.Alphabet
import TurtleGraphics.CommandLine.Args
import TurtleGraphics.CommandLine.FileError
import TurtleGraphics.CommandLine.FileTree
import TurtleGraphics.CommandLine.Memory
import TurtleGraphics.CommandLine.Path
import TurtleGraphics.CommandLine.Session
import TurtleGraphics.Decimal.Basic
import TurtleGraphics.Decimal.Fixed
import TurtleGraphics.Decimal.Reading
import TurtleGraphics.Decimal.Shortest
import TurtleGraphics.Diagnostic
import TurtleGraphics.Expression.Basic
import TurtleGraphics.Expression.Context
import TurtleGraphics.Expression.Evaluate
import TurtleGraphics.Expression.Operator
import TurtleGraphics.Expression.Rpn
import TurtleGraphics.Expression.Token
import TurtleGraphics.Fault
import TurtleGraphics.Log
import TurtleGraphics.Main
import TurtleGraphics.Painter
import TurtleGraphics.Picture
import TurtleGraphics.Preview
import TurtleGraphics.Program.Command
import TurtleGraphics.Program.Enclosed
import TurtleGraphics.Program.Parse
import TurtleGraphics.Program.Statement
import TurtleGraphics.Proofs.Accounting
import TurtleGraphics.Proofs.Bottom
import TurtleGraphics.Proofs.Bounds
import TurtleGraphics.Proofs.Brackets
import TurtleGraphics.Proofs.Casing
import TurtleGraphics.Proofs.Causes
import TurtleGraphics.Proofs.Comments
import TurtleGraphics.Proofs.Composition
import TurtleGraphics.Proofs.Concatenation
import TurtleGraphics.Proofs.Conservation
import TurtleGraphics.Proofs.Context
import TurtleGraphics.Proofs.Cursor
import TurtleGraphics.Proofs.Delivery
import TurtleGraphics.Proofs.Depth
import TurtleGraphics.Proofs.Drawing
import TurtleGraphics.Proofs.Evaluation
import TurtleGraphics.Proofs.Everywhere
import TurtleGraphics.Proofs.Exhaustion
import TurtleGraphics.Proofs.Folding
import TurtleGraphics.Proofs.Frames
import TurtleGraphics.Proofs.Grammar
import TurtleGraphics.Proofs.Halting
import TurtleGraphics.Proofs.Indistinguishable
import TurtleGraphics.Proofs.Infix
import TurtleGraphics.Proofs.Inheritance
import TurtleGraphics.Proofs.Legibility
import TurtleGraphics.Proofs.Lexing
import TurtleGraphics.Proofs.Lines
import TurtleGraphics.Proofs.Located
import TurtleGraphics.Proofs.Matching
import TurtleGraphics.Proofs.Mishaps
import TurtleGraphics.Proofs.Names
import TurtleGraphics.Proofs.Nesting
import TurtleGraphics.Proofs.Noninterference
import TurtleGraphics.Proofs.Numerals
import TurtleGraphics.Proofs.Origins
import TurtleGraphics.Proofs.Outline
import TurtleGraphics.Proofs.Painting
import TurtleGraphics.Proofs.Parts
import TurtleGraphics.Proofs.Period
import TurtleGraphics.Proofs.Places
import TurtleGraphics.Proofs.Positional
import TurtleGraphics.Proofs.Prefixes
import TurtleGraphics.Proofs.Profile
import TurtleGraphics.Proofs.Quotients
import TurtleGraphics.Proofs.Quoting
import TurtleGraphics.Proofs.Ranges
import TurtleGraphics.Proofs.Reporting
import TurtleGraphics.Proofs.Rounding
import TurtleGraphics.Proofs.Scanning
import TurtleGraphics.Proofs.Skeleton
import TurtleGraphics.Proofs.Splitting
import TurtleGraphics.Proofs.Stack
import TurtleGraphics.Proofs.Stepwise
import TurtleGraphics.Proofs.Stray
import TurtleGraphics.Proofs.Subpaths
import TurtleGraphics.Proofs.Trimming
import TurtleGraphics.Proofs.Truncation
import TurtleGraphics.Proofs.Unrolling
import TurtleGraphics.Proofs.Wholes
import TurtleGraphics.Proofs.Yard
import TurtleGraphics.Random
import TurtleGraphics.Run
import TurtleGraphics.Scalar
import TurtleGraphics.Svg
import TurtleGraphics.Text.UpperCase
import TurtleGraphics.Text.Utf8
import TurtleGraphics.Text.WhiteSpace
import TurtleGraphics.Turtle.Action
import TurtleGraphics.Turtle.Bindings
import TurtleGraphics.Turtle.Builtin
import TurtleGraphics.Turtle.Execute
import TurtleGraphics.Turtle.State
