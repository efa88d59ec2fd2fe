import TurtleGraphics.Proofs.Evaluation

/-!
# Properties That Runs Inherit from Their Parts

Running commands is a recursion of three layers: calls nest, bodies nest inside
commands, and commands follow each other. A statement about all runs needs an
induction over all three, and the layers are the same whatever the statement is.

So the induction is done once. A property of ways to run a turtle is
*compositional* if it survives the few ways in which runs are put together: one
after another, after an evaluation, inside a frame, through a call. Then every
list of commands has it, at every depth of calls. What is left for a particular
property is to look at these few ways, and none of them mentions a command.

The evaluation clause hands over no more than `Eval.Reading`, so a property that
must know what evaluation does asks the lemmas about reading and not the
expressions.

## Main definitions

* `Turtle.entered`, `Turtle.left`: A turtle with one frame more, or one less.
* `Compositional`: A property that runs inherit from their parts.

## Theorems

* `Turtle.within_eq`: Running inside a frame is entering, running and leaving.
* `Compositional.iterate`: The rounds of a loop have the property.
* `Compositional.runWith`, `Compositional.runAllWith`: Commands have it, if the
  bodies of procedures do.
* `Compositional.runAllAt`: Commands have it at every depth of calls.
* `Compositional.runAll`: Lists of commands have it.
-/

namespace TurtleGraphics

namespace Turtle

/-- The turtle with a frame put on top. -/
def entered (frame : Bindings) (t : Turtle) : Turtle := { t with scopes := t.scopes.push frame }

/-- The turtle with the frame on top taken away. -/
def left (t : Turtle) : Turtle := { t with scopes := t.scopes.pop }

theorem within_eq (frame : Bindings) (f : Turtle → Progress) (t : Turtle) :
    t.within frame f = t.charge.andThen fun u => (f (u.entered frame)).map left := rfl

end Turtle

/-- A property of ways to run a turtle that survives every way in which runs are
    put together. -/
structure Compositional (P : (Turtle → Progress) → Prop) : Prop where
  running : P .running
  andThen {f g : Turtle → Progress} : P f → P g → P fun t => (f t).andThen g
  observe {α : Type} {x : Eval Turtle α} {f : α → Turtle → Progress} :
    x.Reading → (∀ a, P (f a)) → P fun t => f (t.observe x).1 (t.observe x).2
  perform (a : Action) : P fun t => t.perform a
  within {f : Turtle → Progress} (frame : Bindings) : P f → P fun t => t.within frame f
  call {run : List Command → Turtle → Progress} (name : String) (args : List Scalar) :
    (∀ body, P (run body)) → P fun t => t.call run name args

namespace Compositional

variable {P : (Turtle → Progress) → Prop}

/-- The rounds of a loop, by induction on how many are left. -/
theorem iterate (h : Compositional P) {f : Turtle → Progress} (hf : P f) (rounds index : Nat) :
    P (Turtle.iterate f rounds index) := by
  induction rounds generalizing index with
  | zero => exact h.running
  | succ rounds ih =>
      exact h.andThen (h.within (Turtle.roundFrame (Scalar.ofNat index)) hf) (ih (index + 1))

section

variable {run : List Command → Turtle → Progress}

mutual

/-- A command, by cases. The bodies inside it have the property by recursion, the
    bodies of procedures by assumption. -/
theorem runWith (h : Compositional P) (hrun : ∀ body, P (run body)) :
    (c : Command) → P (Command.runWith run c)
  | .basic i => h.observe (Eval.reading_resolve i) h.perform
  | .loop count body =>
      h.observe (Eval.reading_arg count)
        (fun n => h.iterate (runAllWith h hrun body) (Scalar.wholeBelow n) 0)
  | .condition test body => by
      refine h.observe (Eval.reading_arg test)
        (f := fun v t => if v == 0.0 then .running t else TurtleGraphics.runAllWith run body t)
        (fun v => ?_)
      by_cases hv : (v == 0.0) = true
      · simp only [hv, if_true]
        exact h.running
      · simp only [hv]
        exact runAllWith h hrun body
  | .define name params body => h.perform (.define name ⟨params, body⟩)
  | .call name args =>
      h.observe (Eval.reading_args args) (fun values => h.call name values hrun)

/-- A list of commands, one after another. -/
theorem runAllWith (h : Compositional P) (hrun : ∀ body, P (run body)) :
    (commands : List Command) → P (TurtleGraphics.runAllWith run commands)
  | [] => h.running
  | c :: rest => h.andThen (runWith h hrun c) (runAllWith h hrun rest)

end

end

/-- Commands at every depth of calls, by induction on the calls that may still
    nest. -/
theorem runAllAt (h : Compositional P) (room : Nat) (commands : List Command) :
    P (TurtleGraphics.runAllAt room commands) := by
  induction room generalizing commands with
  | zero => exact h.runAllWith (fun _ => h.running) commands
  | succ room ih => exact h.runAllWith ih commands

theorem runAll (h : Compositional P) (commands : List Command) :
    P (TurtleGraphics.runAll commands) :=
  h.runAllAt Turtle.maxDepth commands

end Compositional

end TurtleGraphics
