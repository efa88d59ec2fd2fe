import TurtleGraphics.Decimal.Reading

/-!
# Command-Line Arguments

Options have a long name and some also a one-letter name. An option with a value
takes it after an equals sign, or from the next argument; after a one-letter name
the value may also follow at once. One-letter options can be joined. After `--`
nothing is an option.

A value taken from the next argument does not begin with a dash, unless it is a
lone dash. No option is given twice, and at most one argument is no option: the
program file.

## Main definitions

* `Flag`, `Key`, `Setting`: Options without and with a value.
* `Args`: The arguments of a call.
* `Args.parse?`: The arguments, unless they are refused.
-/

namespace TurtleGraphics

namespace CommandLine

/-- Options without a value. -/
inductive Flag where
  | cursor
  | quiet
  deriving DecidableEq, Repr

/-- Options with a value. -/
inductive Key where
  | eval
  | output
  | width
  | height
  | maxOperations
  deriving DecidableEq, Repr

/-- An option of either sort. -/
inductive Setting where
  | flag (f : Flag)
  | key (k : Key)
  deriving DecidableEq, Repr

namespace Setting

/-- The option with a long name. -/
def ofLong? : String → Option Setting
  | "eval" => some (.key .eval)
  | "output" => some (.key .output)
  | "width" => some (.key .width)
  | "height" => some (.key .height)
  | "max-operations" => some (.key .maxOperations)
  | "cursor" => some (.flag .cursor)
  | "quiet" => some (.flag .quiet)
  | _ => none

/-- The option with a one-letter name. -/
def ofShort? : Char → Option Setting
  | 'e' => some (.key .eval)
  | 'o' => some (.key .output)
  | 'q' => some (.flag .quiet)
  | _ => none

end Setting

/-- The arguments of a call, as far as they are given. -/
structure Args where
  file : Option String := none
  eval : Option String := none
  output : Option String := none
  width : Option Scalar := none
  height : Option Scalar := none
  maxOperations : Option Nat := none
  cursor : Bool := false
  quiet : Bool := false

/-- A natural number below `2 ^ 64`, possibly with a plus sign. -/
def readCount? (s : String) : Option Nat :=
  let digits := match s.toList with
    | '+' :: rest => rest
    | rest => rest
  if digits.isEmpty || !digits.all Char.isDigit then none
  else
    let n := digitsValue digits
    if n < Nat.pow 2 64 then some n else none

/-- Stores a value that has not been given before. -/
def once {α : Type} (old : Option α) (new : α) : Option (Option α) :=
  match old with
  | some _ => none
  | none => some (some new)

/-- Whether an argument can be taken as the value of the option before it. -/
def isValue (s : String) : Bool := s.toList.head? != some '-' || s == "-"

namespace Args

def setFlag (a : Args) : Flag → Option Args
  | .cursor => if a.cursor then none else some { a with cursor := true }
  | .quiet => if a.quiet then none else some { a with quiet := true }

def setKey (a : Args) (k : Key) (value : String) : Option Args :=
  match k with
  | .eval => do return { a with eval := ← once a.eval value }
  | .output => do return { a with output := ← once a.output value }
  | .width => do return { a with width := ← once a.width (← Scalar.read? value) }
  | .height => do return { a with height := ← once a.height (← Scalar.read? value) }
  | .maxOperations => do
    return { a with maxOperations := ← once a.maxOperations (← readCount? value) }

def setFile (a : Args) (file : String) : Option Args := do
  return { a with file := ← once a.file file }

/-- What one argument has come to: it was complete, or it is an option that takes
    the next argument as its value. -/
inductive Read where
  | complete (a : Args)
  | awaiting (k : Key) (a : Args)

/-- A long option, with its value if it has one after an equals sign. -/
def readLong (a : Args) (body : List Char) : Option Read := do
  let name := String.ofList (body.takeWhile (· != '='))
  match ← Setting.ofLong? name, body.dropWhile (· != '=') with
  | .flag f, [] => return .complete (← a.setFlag f)
  | .flag _, _ :: _ => none
  | .key k, [] => return .awaiting k a
  | .key k, _ :: value => return .complete (← a.setKey k (String.ofList value))

/-- Joined one-letter options; the first that has a value takes the rest. -/
def readShort (a : Args) : List Char → Option Read
  | [] => some (.complete a)
  | c :: rest => do
    match ← Setting.ofShort? c with
    | .flag f => (← a.setFlag f).readShort rest
    | .key k =>
      match rest with
      | [] => return .awaiting k a
      | '=' :: value => return .complete (← a.setKey k (String.ofList value))
      | value => return .complete (← a.setKey k (String.ofList value))

/-- One argument that may be an option. A lone dash is a file. -/
def readOne (a : Args) (arg : String) : Option Read :=
  match arg.toList with
  | '-' :: '-' :: body => a.readLong body
  | '-' :: c :: body => a.readShort (c :: body)
  | _ => do return .complete (← a.setFile arg)

/-- Arguments of which none is an option. -/
def readFiles (a : Args) : List String → Option Args
  | [] => some a
  | arg :: rest => do (← a.setFile arg).readFiles rest

/-- Reads arguments one after the other; `waiting` is an option that still needs
    its value. -/
def readAll (a : Args) (waiting : Option Key) : List String → Option Args
  | [] => if waiting.isNone then some a else none
  | arg :: rest =>
    match waiting with
    | some k => if isValue arg then do (← a.setKey k arg).readAll none rest else none
    | none =>
      if arg = "--" then a.readFiles rest
      else do
        match ← a.readOne arg with
        | .complete a => a.readAll none rest
        | .awaiting k a => a.readAll (some k) rest

/-- The arguments of a call, unless they are refused. -/
def parse? (args : List String) : Option Args := readAll {} none args

end Args

end CommandLine

end TurtleGraphics
