import TurtleGraphics.Program.Command
import TurtleGraphics.Program.Statement
import TurtleGraphics.Text.UpperCase

/-!
# Programs from Text

The statements of a program become commands: parameter texts become expressions,
body texts become lists of commands. Problems are collected on the way with their
places, in the order in which a reader of the text would meet them: the parameter
list, the parameters in it, the body.

Bodies are nested at most two hundred deep. A body further inside is reported and
left empty.

## Main definitions

* `Noted`: A value with the problems met in finding it.
* `Statement.command`: The command of a statement.
* `Program.parse`: The commands of a program text.
-/

namespace TurtleGraphics

/-- A value and the problems met in finding it. -/
structure Noted (α : Type) where
  value : α
  faults : List LocatedFault

namespace Noted

variable {α β : Type}

/-- A value found without problems. -/
def pure (a : α) : Noted α := ⟨a, []⟩

/-- One finding after another; the problems of the first come first. -/
def bind (x : Noted α) (f : α → Noted β) : Noted β :=
  let y := f x.value
  ⟨y.value, x.faults ++ y.faults⟩

instance : Monad Noted where
  pure := Noted.pure
  bind := Noted.bind

@[simp]
theorem value_pure (a : α) : (Pure.pure a : Noted α).value = a := rfl

@[simp]
theorem faults_pure (a : α) : (Pure.pure a : Noted α).faults = [] := rfl

@[simp]
theorem value_bind (x : Noted α) (f : α → Noted β) : (x >>= f).value = (f x.value).value := rfl

@[simp]
theorem faults_bind (x : Noted α) (f : α → Noted β) :
    (x >>= f).faults = x.faults ++ (f x.value).faults := rfl

/-- Problems without a value. -/
def report (faults : List LocatedFault) : Noted Unit := ⟨(), faults⟩

/-- The findings of all elements in order. -/
def traverse (f : α → Noted β) (xs : List α) : Noted (List β) :=
  let found := xs.map f
  ⟨found.map value, found.flatMap faults⟩

end Noted

namespace Param

/-- The expression of a parameter. -/
def expression (p : Param) : Noted (Option Expression) :=
  let (e, faults) := Expression.parse p.text
  ⟨e, Fault.allAt p.span faults⟩

/-- The argument of a parameter. -/
def arg (default : Scalar) (p : Param) : Noted Arg := do
  return Arg.ofOption (← p.expression) default

/-- The name of a formal parameter, without a dollar sign before it. -/
def name (p : Param) : Noted (Option String) :=
  if isName p.text then
    match p.text with
    | '$' :: rest => ⟨some (String.ofList rest), []⟩
    | text => ⟨some (String.ofList text), []⟩
  else ⟨none, [⟨.notIdentifier (String.ofList p.text), p.span⟩]⟩

end Param

namespace Params

/-- The expression of the first parameter. -/
def firstExpression (ps : Params) : Noted (Option Expression) :=
  match ps.items with
  | p :: _ => p.expression
  | [] => Noted.pure none

/-- The argument of the first parameter. -/
def firstArg (ps : Params) (default : Scalar) : Noted Arg := do
  return Arg.ofOption (← ps.firstExpression) default

/-- The arguments of all parameters. -/
def args (ps : Params) (default : Scalar) : Noted (List Arg) :=
  Noted.traverse (Param.arg default) ps.items

/-- The color of the parameters that have a value. -/
def colorArgs (ps : Params) : Noted ColorArgs := do
  let es ← Noted.traverse Param.expression ps.items
  return ColorArgs.ofExpressions (es.filterMap id)

/-- The names of the formal parameters. -/
def names (ps : Params) : Noted (List (Option String)) := Noted.traverse Param.name ps.items

/-- The problem with the brackets of a parameter list that belongs to a statement
    at `span`. -/
def bracketFaults (ps : Params) (span : Span) : List LocatedFault :=
  match ps.ending with
  | .proper => []
  | .unopened => [⟨.unopened .round, span⟩]
  | .unclosed list => [⟨.unclosed .round, list⟩]

end Params

/-- The commands of a body that belongs to a statement at `span`, where `nested`
    finds the commands of a block. -/
def Body.commands (nested : Block → Noted (List Command)) (span : Span) :
    Body → Noted (Option (List Command))
  | .absent => Noted.pure none
  | .unopened => ⟨some [], [⟨.unopened .curly, span⟩]⟩
  | .block b => do
    Noted.report (if b.closed then [] else [⟨.unclosed .curly, b.openSpan⟩])
    return some (← nested b)

namespace Statement

/-- A problem with the statement as a whole. -/
def refuse (s : Statement) (f : Fault) : Noted (Option Command) := ⟨none, [⟨f, s.span⟩]⟩

/-- The command of `D` and `M`: two arguments are a position, one is a
    distance. -/
def movement (penDown : Bool) : List Arg → Instruction
  | [] => .forward none penDown
  | [distance] => .forward (some distance) penDown
  | x :: y :: _ => .moveTo x y penDown

/-- The command of a statement without a body. -/
def instruction (s : Statement) : Noted (Option Instruction) :=
  match s.code with
  | .turn clockwise => do return some (.turn (← s.params.firstExpression) clockwise)
  | .heading => do return some (.heading (← s.params.firstArg 0.0))
  | .move penDown => do return some (movement penDown (← s.params.args 0.0))
  | .home => Noted.pure (some .home)
  | .push => Noted.pure (some .push)
  | .pop => Noted.pure (some .pop)
  | .step => do return some (.step (← s.params.firstArg 20.0))
  | .color => do return some (.color (← s.params.colorArgs))
  | .width => do return some (.width (← s.params.firstArg 1.0))
  | .flush mode => Noted.pure (some (.flush mode))
  | .background => do return some (.background (← s.params.colorArgs))
  | .limit => do return some (.limit (← s.params.firstArg 100.0))
  | _ => Noted.pure none

/-- The command of an assignment. -/
def assignment (s : Statement) : Noted (Option Command) := do
  match s.name, ← s.params.firstExpression with
  | some name, some value => return some (.basic (.assign name (.ofOption (some value) 0.0)))
  | some _, none => s.refuse .valueUnset
  | none, _ => s.refuse .variableUnnamed

/-- The command of a definition, which has a body, or of a call. -/
def procedure (s : Statement) (body : Option (List Command)) : Noted (Option Command) :=
  match s.name, body with
  | none, _ => s.refuse .procedureUnnamed
  | some name, some body => do return some (.define name (← s.params.names) body)
  | some name, none => do return some (.call name (← s.params.args 0.0))

/-- The command of a statement, where `nested` finds the commands of a block. -/
def command (nested : Block → Noted (List Command)) (s : Statement) : Noted (Option Command) := do
  Noted.report (s.params.bracketFaults s.span)
  match s.code with
  | .loop =>
    let count ← s.params.firstArg 0.0
    let body ← s.body.commands nested s.span
    return body.map (.loop count)
  | .condition =>
    let test ← s.params.firstArg 0.0
    match ← s.body.commands nested s.span with
    | some body => return some (.condition test body)
    | none => s.refuse .bodyExpected
  | .procedure => s.procedure (← s.body.commands nested s.span)
  | .assign => s.assignment
  | _ => return (← s.instruction).map .basic

end Statement

/-- The command of an item, if it has one. -/
def Item.command (nested : Block → Noted (List Command)) : Item → Noted (Option Command)
  | .statement s => s.command nested
  | .unknown c pos => ⟨none, [⟨.unknownCommand c, ⟨pos, pos + 1⟩⟩]⟩

/-- The commands of a text that starts at a place, where `nested` finds the
    commands of a block. -/
def commandsWith (nested : Block → Noted (List Command)) (start : Nat) (text : List Char) :
    Noted (List Command) := do
  let commands ← Noted.traverse (Item.command nested) (statements start text)
  return commands.filterMap id

/-- The commands of a text in which bodies may be nested `room` deep. -/
def commandsAt : (room start : Nat) → List Char → Noted (List Command)
  | 0 => commandsWith fun b => ⟨[], [⟨.nestedTooDeep, b.span⟩]⟩
  | room + 1 => commandsWith fun b => commandsAt room b.start b.text

namespace Program

/-- How deep bodies can be nested. -/
def maxNesting : Nat := 200

/-- The commands of a program. Places are counted in the upper-cased text. -/
def parse (source : String) : Noted (List Command) :=
  commandsAt maxNesting 0 (Text.upperCase source.toList)

end Program

end TurtleGraphics
