import TurtleGraphics.Alphabet
import TurtleGraphics.Decimal.Reading
import TurtleGraphics.Expression.Operator
import TurtleGraphics.Fault

/-!
# Tokens of Expressions

Expression text is cut into numbers, variables, operators and round brackets.
Blanks separate tokens and are dropped; a character without a meaning is reported
and dropped as well, so every text has tokens.

## Main definitions

* `Token`: The tokens.
* `numberValue`: The number that a run of digits and dots denotes.
* `scan`: The tokens of a text, as they are written.
-/

namespace TurtleGraphics

/-- One token. Numbers carry no sign: a sign is an operator. A variable is kept
    without its dollar sign. -/
inductive Token where
  | number (value : Scalar)
  | variable (name : String)
  | operator (op : Operator)
  | opening
  | closing
  deriving DecidableEq

namespace Token

/-- Whether an operand can end with this token. -/
def endsOperand : Token → Bool
  | .number _ | .variable _ | .closing => true
  | _ => false

/-- Whether an operand can start with this token. -/
def startsOperand : Token → Bool
  | .number _ | .variable _ | .opening => true
  | _ => false

def isNumber : Token → Bool
  | .number _ => true
  | _ => false

def isVariable : Token → Bool
  | .variable _ => true
  | _ => false

end Token

/-- The characters of numbers. -/
def isNumberChar (c : Char) : Bool := c.isDigit || c == '.'

/-- A run of dots counts as one dot. -/
def collapseDots : List Char → List Char
  | '.' :: '.' :: rest => collapseDots ('.' :: rest)
  | c :: rest => c :: collapseDots rest
  | [] => []

/-- The number written at the start of a text of digits and dots: digits, and
    after one dot more digits. A second dot ends it. No digits at all are zero. -/
def leadingDecimal (s : List Char) : Decimal :=
  let whole := s.takeWhile Char.isDigit
  let fraction :=
    match s.dropWhile Char.isDigit with
    | '.' :: rest => rest.takeWhile Char.isDigit
    | _ => []
  ⟨digitsValue (whole ++ fraction), -Int.ofNat fraction.length⟩

/-- The number that a run of digits and dots denotes. -/
def numberValue (run : List Char) : Scalar := (leadingDecimal (collapseDots run)).toScalar

/-- What scanning has found: the tokens, and the problems met between them. -/
structure Scanned where
  tokens : List Token
  faults : List Fault

namespace Scanned

/-- A token found before all others. -/
def withToken (s : Scanned) (t : Token) : Scanned := { s with tokens := t :: s.tokens }

/-- A problem met before all others. -/
def withFault (s : Scanned) (f : Fault) : Scanned := { s with faults := f :: s.faults }

end Scanned

/-- The tokens of a text, as they are written. Numbers and names are as long as
    possible; names are read in upper case. -/
def scan : List Char → Scanned
  | [] => ⟨[], []⟩
  | c :: rest =>
    if isBlank c then scan rest
    else if isNumberChar c then
      have : (rest.dropWhile isNumberChar).length ≤ rest.length :=
        (List.dropWhile_suffix isNumberChar).length_le
      (scan (rest.dropWhile isNumberChar)).withToken
        (.number (numberValue (c :: rest.takeWhile isNumberChar)))
    else
      match Operator.ofSymbol? c with
      | some op => (scan rest).withToken (.operator op)
      | none =>
        if c = '(' then (scan rest).withToken .opening
        else if c = ')' then (scan rest).withToken .closing
        else if c = '$' then
          have : (rest.dropWhile isNameChar).length ≤ rest.length :=
            (List.dropWhile_suffix isNameChar).length_le
          let name := rest.takeWhile isNameChar
          let after := scan (rest.dropWhile isNameChar)
          if name.isEmpty then after.withFault .emptyIdentifier
          else after.withToken (.variable (String.ofList (name.map Char.toUpper)))
        else (scan rest).withFault (.unknownToken c)
termination_by s => s.length

end TurtleGraphics
