/-!
# Diagnostics

Nothing a program does makes its run fail. What goes wrong is recorded as a
diagnostic: a category, a severity, a message, and the place in the program text
where that is known.

## Main definitions

* `Span`: A range of characters.
* `Severity`, `Kind`: How bad a problem is and what sort of problem it is.
* `Diagnostic`: One recorded problem.
* `Diagnostic.shown`: The line a reader sees.
-/

namespace TurtleGraphics

/-- The characters from `start` up to but not including `stop`, counted in the
    upper-cased program text. -/
structure Span where
  start : Nat
  stop : Nat
  deriving DecidableEq, Repr

/-- The text of a span. -/
def Span.shown (s : Span) : String :=
  "[" ++ toString s.start ++ ".." ++ toString s.stop ++ "]"

/-- How bad a problem is. -/
inductive Severity where
  | info
  | warning
  | error
  deriving DecidableEq, Repr

namespace Severity

def all : List Severity := [.info, .warning, .error]

/-- The severity as a heading. -/
def label : Severity → String
  | .info => "INFO"
  | .warning => "WARNING"
  | .error => "ERROR"

end Severity

/-- The categories of problems. -/
inductive Kind where
  | unknownCommand
  | unbalancedDelimiter
  | missingPart
  | invalidIdentifier
  | nestingTooDeep
  | invalidExpression
  | truncated
  | undefinedVariable
  | positionStack
  | undefinedProcedure
  | limitExceeded
  deriving DecidableEq, Repr

namespace Kind

def all : List Kind :=
  [.unknownCommand, .unbalancedDelimiter, .missingPart, .invalidIdentifier, .nestingTooDeep,
    .invalidExpression, .truncated, .undefinedVariable, .positionStack, .undefinedProcedure,
    .limitExceeded]

/-- The name of a category. -/
def label : Kind → String
  | .unknownCommand => "unknown command"
  | .unbalancedDelimiter => "unbalanced delimiter"
  | .missingPart => "missing part"
  | .invalidIdentifier => "invalid identifier"
  | .nestingTooDeep => "nesting too deep"
  | .invalidExpression => "invalid expression"
  | .truncated => "truncated result"
  | .undefinedVariable => "undefined variable"
  | .positionStack => "position stack"
  | .undefinedProcedure => "undefined procedure"
  | .limitExceeded => "limit exceeded"

end Kind

/-- One recorded problem. -/
structure Diagnostic where
  kind : Kind
  severity : Severity
  message : String
  span : Option Span := none
  deriving DecidableEq, Repr

namespace Diagnostic

/-- The place, where known, and the message. -/
def shown (d : Diagnostic) : String :=
  match d.span with
  | some s => s.shown ++ " " ++ d.message
  | none => d.message

/-- The diagnostic with its place filled in, unless it has one already. -/
def located (s : Span) (d : Diagnostic) : Diagnostic :=
  { d with span := d.span.or (some s) }

end Diagnostic

end TurtleGraphics
