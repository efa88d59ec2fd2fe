import TurtleGraphics.Program.Parse
import TurtleGraphics.Turtle.Action

/-!
# Running Commands

Arguments are evaluated before their command is charged, so what they report and
draw from the random numbers happens even if the command is then refused.
Entering the body of a loop or of a procedure is charged as an operation of its
own; looking at a condition costs nothing.

Calls are the one way in which running a program could go on forever without the
program text getting any shorter. A call is refused once `maxDepth` frames are in
place, and every call adds a frame, so calls never nest deeper than that. Running
is therefore defined by recursion on `room`, the number of calls that may still
nest, and within that by recursion on the commands.

## Main definitions

* `Turtle.within`: Running something with a frame on top.
* `Turtle.iterate`: The rounds of a loop.
* `Turtle.call`: A call of a procedure.
* `Command.runWith`, `runAllWith`: Running commands, given how bodies of
  procedures run.
* `runAll`: Running a list of commands.
* `Turtle.trace`: The states after each of a list of commands.
-/

namespace TurtleGraphics

namespace Turtle

/-- Runs something with a frame on top, which is taken away again even if the
    run is stopped. -/
def within (frame : Bindings) (run : Turtle → Progress) (t : Turtle) : Progress :=
  t.charge.andThen fun t =>
    (run { t with scopes := t.scopes.push frame }).map fun t =>
      { t with scopes := t.scopes.pop }

/-- The frame of one round of a loop. -/
def roundFrame (index : Scalar) : Bindings := ({} : Bindings).set counterName index

/-- Runs the body of a loop `rounds` more times, counting from `index`. -/
def iterate (run : Turtle → Progress) : (rounds index : Nat) → Turtle → Progress
  | 0, _, t => .running t
  | rounds + 1, index, t =>
    (t.within (roundFrame (Scalar.ofNat index)) run).andThen (iterate run rounds (index + 1))

/-- Calls a procedure. A call beyond the permitted depth is passed over without a
    word. -/
def call (run : List Command → Turtle → Progress) (name : String) (args : List Scalar)
    (t : Turtle) : Progress :=
  t.charge.andThen fun t =>
    match t.procedures.get? name with
    | none => .running (t.report (.undefinedProcedure name))
    | some p =>
      if t.scopes.depth < t.allowedDepth then t.within (p.frame args) (run p.body)
      else .running t

end Turtle

section

variable (run : List Command → Turtle → Progress)

mutual

/-- Runs a command; `run` runs the bodies of called procedures. -/
def Command.runWith : Command → Turtle → Progress
  | .basic i, t =>
    let (a, t) := t.observe i.resolve
    t.perform a
  | .loop count body, t =>
    let (count, t) := t.observe count.eval
    t.iterate (runAllWith body) (Scalar.wholeBelow count) 0
  | .condition test body, t =>
    let (test, t) := t.observe test.eval
    if test == 0.0 then .running t else runAllWith body t
  | .define name params body, t => t.perform (.define name ⟨params, body⟩)
  | .call name args, t =>
    let (args, t) := t.observe (Arg.evalAll args)
    t.call run name args

/-- Runs commands one by one until stopped; `run` runs the bodies of called
    procedures. -/
def runAllWith : List Command → Turtle → Progress
  | [], t => .running t
  | c :: rest, t => (Command.runWith c t).andThen (runAllWith rest)

end

end

/-- Runs commands in which calls may nest `room` deep. -/
def runAllAt : (room : Nat) → List Command → Turtle → Progress
  -- With `maxDepth` frames in place a call is refused before its body is asked for.
  | 0 => runAllWith fun _ t => .running t
  | room + 1 => runAllWith (runAllAt room)

/-- Runs commands one by one until stopped. -/
def runAll (commands : List Command) (t : Turtle) : Progress :=
  runAllAt Turtle.maxDepth commands t

namespace Turtle

/-- What a turtle comes to after each of some commands, up to a stop. -/
def trace : List Command → Turtle → List Progress
  | [], _ => []
  | c :: rest, t =>
    match runAll [c] t with
    | .running t => .running t :: trace rest t
    | .stopped bound t => [.stopped bound t]

/-- Calls a procedure from outside a program. -/
def callProcedure (t : Turtle) (name : String) (args : List Scalar) : Progress :=
  t.call runAll name args

/-- Runs commands with a frame on top from outside a program. -/
def runScoped (t : Turtle) (frame : Bindings) (commands : List Command) : Progress :=
  t.within frame (runAll commands)

/-- Reads a program; the problems met go into the log. -/
def load (t : Turtle) (source : String) : List Command × Turtle :=
  let p := Program.parse source
  (p.value, { t with log := t.log.reportLocated p.faults })

/-- Reads and evaluates an expression; the problems met go into the log. -/
def evalText (t : Turtle) (text : String) : Option Scalar × Turtle :=
  let (e, faults) := Expression.parse text.toList
  let t := { t with log := t.log.reportAll faults }
  match e with
  | some e => t.observe e.eval
  | none => (none, t)

end Turtle

end TurtleGraphics
