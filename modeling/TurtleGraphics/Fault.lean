import TurtleGraphics.Diagnostic

/-!
# Faults

The problems that reading and running a program can meet, by cause. The category,
the severity and the wording of each are decided here and nowhere else.

## Main definitions

* `Delimiter`: The two sorts of brackets around parameters and bodies.
* `Fault`: The causes.
* `Fault.report`: The diagnostic of a cause.
* `LocatedFault`: A cause met at a place in the program text.
-/

namespace TurtleGraphics

/-- The brackets around parameter lists and around bodies. -/
inductive Delimiter where
  | round
  | curly
  deriving DecidableEq, Repr

namespace Delimiter

def opening : Delimiter → Char
  | .round => '('
  | .curly => '\x7b'

def closing : Delimiter → Char
  | .round => ')'
  | .curly => '\x7d'

end Delimiter

/-- What can go wrong. -/
inductive Fault where
  /-- A character that begins no command. -/
  | unknownCommand (code : Char)
  /-- A closing bracket without an opening one before it. -/
  | unopened (d : Delimiter)
  /-- An opening bracket without a closing one after it. -/
  | unclosed (d : Delimiter)
  /-- A condition without a body. -/
  | bodyExpected
  /-- A definition or call without a name. -/
  | procedureUnnamed
  /-- An assignment whose value is missing or cannot be read. -/
  | valueUnset
  /-- An assignment without a name. -/
  | variableUnnamed
  /-- A formal parameter that is no name. -/
  | notIdentifier (text : String)
  /-- A body inside too many others. -/
  | nestedTooDeep
  /-- A dollar sign without a name after it. -/
  | emptyIdentifier
  /-- A character that has no meaning in an expression. -/
  | unknownToken (c : Char)
  /-- A closing bracket in an expression without an opening one. -/
  | unmatchedClosing
  /-- An opening bracket in an expression without a closing one. -/
  | unmatchedOpening
  /-- An operator that lacks operands. -/
  | missingOperands (symbol : Char)
  /-- Several values with no operator between them. -/
  | operatorExpected
  /-- A result that is not finite. -/
  | notNumber
  /-- A result outside the permitted range. -/
  | truncated
  /-- A variable that has no value. -/
  | undefinedVariable (name : String)
  /-- Saving a pose when no more can be saved. -/
  | stackFull
  /-- Restoring a pose when none is saved. -/
  | stackEmpty
  /-- A call of a procedure that was never defined. -/
  | undefinedProcedure (name : String)
  /-- The budget of operations is used up. -/
  | limitExceeded (limit : Nat)
  deriving DecidableEq, Repr

namespace Fault

def kind : Fault → Kind
  | unknownCommand _ => .unknownCommand
  | unopened _ | unclosed _ => .unbalancedDelimiter
  | bodyExpected | procedureUnnamed | valueUnset | variableUnnamed => .missingPart
  | notIdentifier _ => .invalidIdentifier
  | nestedTooDeep => .nestingTooDeep
  | emptyIdentifier | unknownToken _ | unmatchedClosing | unmatchedOpening => .invalidExpression
  | missingOperands _ | operatorExpected | notNumber => .invalidExpression
  | truncated => .truncated
  | undefinedVariable _ => .undefinedVariable
  | stackFull | stackEmpty => .positionStack
  | undefinedProcedure _ => .undefinedProcedure
  | limitExceeded _ => .limitExceeded

/-- Problems that are mended without loss are warnings. -/
def severity : Fault → Severity
  | unopened _ | unclosed _ | unmatchedClosing | truncated => .warning
  | _ => .error

def message : Fault → String
  | unknownCommand c => "Unknown command: " ++ c.toString
  | unopened d => "Enclosing " ++ d.opening.toString ++ " not found"
  | unclosed d => "Enclosing " ++ d.closing.toString ++ " not found"
  | bodyExpected => "?: Body expected"
  | procedureUnnamed => "@: Procedure name not set"
  | valueUnset => "$: Variable value not set"
  | variableUnnamed => "$: Variable name not set"
  | notIdentifier text => "Not an identifier: " ++ text
  | nestedTooDeep => "Nesting too deep, body ignored"
  | emptyIdentifier => "Empty identifier"
  | unknownToken c => "Unknown expression token: " ++ c.toString
  | unmatchedClosing => "Unmatched ) in expression"
  | unmatchedOpening => "Unmatched ( in expression"
  | missingOperands symbol => "Not enough operands for " ++ symbol.toString
  | operatorExpected => "Operator expected"
  | notNumber => "Expression result is not a number"
  | truncated => "Expression result truncated"
  | undefinedVariable name => "Variable not defined: " ++ name
  | stackFull => "Position stack is full, command ignored"
  | stackEmpty => "Position stack is empty, command ignored"
  | undefinedProcedure name => "Procedure not defined: " ++ name
  | limitExceeded limit => "Command limit exceeded, limit=" ++ toString limit

/-- The diagnostic of a cause whose place is not known. -/
def report (f : Fault) : Diagnostic := ⟨f.kind, f.severity, f.message, none⟩

end Fault

/-- A cause met at a place in the program text. -/
structure LocatedFault where
  fault : Fault
  span : Span
  deriving DecidableEq, Repr

/-- The diagnostic of a cause whose place is known. -/
def LocatedFault.report (f : LocatedFault) : Diagnostic :=
  { f.fault.report with span := some f.span }

/-- All of `faults` met at the same place. -/
def Fault.allAt (span : Span) (faults : List Fault) : List LocatedFault :=
  faults.map (⟨·, span⟩)

end TurtleGraphics
