import TurtleGraphics.Turtle.Execute

/-!
# What Evaluation Can See and Change

An expression learns about its surroundings only by reading variables. So it
cannot tell two contexts apart in which every variable reads the same, whatever
else is different about them.

That is stated once, for an arbitrary relation between contexts: if reading a
variable gives the same value on both sides and leaves the contexts related, then
so does every evaluation. `Eval.Reading` is this property of a computation, and
`Evaluated.agrees_evaluateFrom` is the one place where the evaluation loop is
opened. Every later fact of the sort "evaluation does not look at this" or
"evaluation does not touch that" is an instance with a relation chosen for the
purpose.

Only the variables that an expression names can be read by it, so the contexts have
to agree on these alone. `Eval.ReadsOnly` is the sharper property, for a set of
variables that is given in advance.

Two such instances are drawn here for turtles. A relation that pins the state
down to its random numbers says that those are all that evaluation changes. The
relation between a turtle and its copy under another budget says that evaluation
does not look at the budget.

## Main definitions

* `Variables.AgreeOn`, `Variables.Agree`: Related contexts read some variables alike,
  or all of them.
* `Rpn.reads`, `Instruction.reads`: The variables that are read.
* `Evaluated.Agrees`: Two outcomes are the same up to related contexts.
* `Eval.ReadsOnly`: A computation that learns by reading some variables only.
* `Eval.Reading`: A computation that learns by reading variables only.
* `Eval.Inherited`: A property that arguments inherit from programs.
* `Turtle.withBudget`: A turtle under another budget.

## Theorems

* `Evaluated.agrees_evaluateFrom`: Programs evaluate alike in related contexts.
* `Eval.Inherited.resolve`: Instructions inherit what holds of programs.
* `Eval.inherited_readsOnly`: What they name is all that they read.
* `Eval.reading_resolve`: Arguments of an instruction learn by reading only.
* `Turtle.context_eq_of_reading`: Evaluation changes the random numbers only.
* `Turtle.observe_eq_of_reading`: So does observing, apart from the log.
* `Turtle.observe_withBudget`: Evaluation does not look at the budget.
-/

namespace TurtleGraphics

/-- Contexts related by `R` read the variables of `V` alike: every one of them has the
    same value in both, and they are still related after it has been read. -/
def Variables.AgreeOn {σ τ : Type} [Variables σ] [Variables τ] (V : String → Prop)
    (R : σ → τ → Prop) : Prop :=
  ∀ name, V name → ∀ (s : σ) (t : τ), R s t →
    (Variables.read name s).1 = (Variables.read name t).1 ∧
      R (Variables.read name s).2 (Variables.read name t).2

/-- Contexts related by `R` read alike: every variable has the same value in
    both, and they are still related after it has been read. -/
def Variables.Agree {σ τ : Type} [Variables σ] [Variables τ] (R : σ → τ → Prop) : Prop :=
  ∀ (name : String) (s : σ) (t : τ), R s t →
    (Variables.read name s).1 = (Variables.read name t).1 ∧
      R (Variables.read name s).2 (Variables.read name t).2

/-- The variables that a program reads, in order. -/
def Rpn.reads : List Rpn → List String
  | [] => []
  | .variable name :: rest => name :: reads rest
  | _ :: rest => reads rest

/-- The variables that an expression reads. -/
def Expression.reads : Expression → List String
  | .constant _ => []
  | .deferred program => Rpn.reads program

/-- The variables that an argument reads. -/
def Arg.reads (a : Arg) : List String := a.expr.reads

/-- The variables that the arguments of a color read. -/
def ColorArgs.reads : ColorArgs → List String
  | .gray v => v.reads
  | .rgba r g b a => r.reads ++ g.reads ++ b.reads ++ a.reads

/-- The variables that the arguments of an instruction read. -/
def Instruction.reads : Instruction → List String
  | .turn amount _ => amount.elim [] Expression.reads
  | .forward distance _ => distance.elim [] Arg.reads
  | .moveTo x y _ => x.reads ++ y.reads
  | .push | .pop | .flush _ => []
  | .color args | .background args => args.reads
  | .heading a | .step a | .width a | .limit a | .assign _ a => a.reads

namespace Evaluated

/-- The same value and the same problems, in contexts related by `R`. -/
structure Agrees {σ τ α : Type} (R : σ → τ → Prop) (x : Evaluated σ α) (y : Evaluated τ α) :
    Prop where
  value : x.value = y.value
  faults : x.faults = y.faults
  context : R x.context y.context

variable {σ τ : Type} [Variables σ] [Variables τ] {R : σ → τ → Prop}

/-- A program evaluates alike in contexts that read its variables alike. The stacks
    are equal on both sides all along, so only the variables have to be compared. -/
theorem agrees_evaluateFrom {V : String → Prop} (hR : Variables.AgreeOn V R)
    (program : List Rpn) (hV : ∀ name ∈ Rpn.reads program, V name) (stack : List Scalar)
    (s : σ) (t : τ) (h : R s t) :
    Agrees R (evaluateFrom program stack s) (evaluateFrom program stack t) := by
  induction program generalizing stack s t with
  | nil => exact ⟨rfl, rfl, h⟩
  | cons step rest ih =>
      cases step with
      | number v => exact ih hV (v :: stack) s t h
      | «variable» name =>
          rcases List.forall_mem_cons.mp hV with ⟨hname, hV⟩
          have hread := hR name hname s t h
          rcases hs : Variables.read name s with ⟨v, s'⟩
          rcases ht : Variables.read name t with ⟨w, t'⟩
          rw [hs, ht] at hread
          rcases hread with ⟨hvw, hst⟩
          simp only at hvw
          subst hvw
          simp only [evaluateFrom, hs, ht]
          cases v with
          | some v => exact ih hV (v :: stack) s' t' hst
          | none =>
              -- The unknown variable is reported first on both sides.
              have hrest := ih hV (0.0 :: stack) s' t' hst
              exact ⟨hrest.value, congrArg (_ :: ·) hrest.faults, hrest.context⟩
      | apply op =>
          cases op with
          | unary op =>
              cases stack with
              | nil => exact ⟨rfl, rfl, h⟩
              | cons a stack => exact ih hV (op.apply a :: stack) s t h
          | binary op =>
              rcases stack with _ | ⟨b, _ | ⟨a, stack⟩⟩
              · exact ⟨rfl, rfl, h⟩
              · exact ⟨rfl, rfl, h⟩
              · exact ih hV (op.apply a b :: stack) s t h

end Evaluated

namespace Eval

variable {σ : Type} [Variables σ] {α β : Type}

/-- A computation that learns about its context by reading variables of `V` only: it
    cannot tell contexts apart that read these alike. -/
def ReadsOnly (V : String → Prop) (x : Eval σ α) : Prop :=
  ∀ R : σ → σ → Prop, Variables.AgreeOn V R → ∀ s t, R s t → Evaluated.Agrees R (x s) (x t)

/-- A computation that learns about its context by reading variables only: it
    cannot tell contexts apart that read alike. -/
def Reading (x : Eval σ α) : Prop :=
  ∀ R : σ → σ → Prop, Variables.Agree R → ∀ s t, R s t → Evaluated.Agrees R (x s) (x t)

theorem ReadsOnly.reading {V : String → Prop} {x : Eval σ α} (h : x.ReadsOnly V) : x.Reading :=
  fun R hR => h R fun name _ => hR name

/-- Computations that read compose: the first one leaves related contexts and the
    same value to the second. -/
theorem readsOnly_bind {V : String → Prop} {x : Eval σ α} {f : α → Eval σ β}
    (hx : x.ReadsOnly V) (hf : ∀ a, (f a).ReadsOnly V) : (x >>= f).ReadsOnly V := by
  intro R hR s t h
  have hfirst := hx R hR s t h
  have hsecond := hf (x s).value R hR _ _ hfirst.context
  rw [bind_apply, bind_apply, ← hfirst.value, ← hfirst.faults]
  exact ⟨hsecond.value, congrArg ((x s).faults ++ ·) hsecond.faults, hsecond.context⟩

/-- A property of computations that the evaluation of arguments inherits from the
    programs of their expressions, as long as these read variables of `V` only. -/
structure Inherited (V : String → Prop) (P : (α : Type) → Eval σ α → Prop) : Prop where
  pure {α : Type} (a : α) : P α (Eval.pure a)
  bind {α β : Type} {x : Eval σ α} {f : α → Eval σ β} : P α x → (∀ a, P β (f a)) → P β (x >>= f)
  evaluate (program : List Rpn) : (∀ name ∈ Rpn.reads program, V name) →
    P (Option Scalar) (TurtleGraphics.evaluate program)

namespace Inherited

variable {V : String → Prop} {P : (α : Type) → Eval σ α → Prop}

theorem expression (h : Inherited V P) (e : Expression) (he : ∀ name ∈ e.reads, V name) :
    P (Option Scalar) e.eval := by
  cases e with
  | constant v => exact h.pure (some v)
  | deferred program => exact h.evaluate program he

theorem arg (h : Inherited V P) (a : Arg) (ha : ∀ name ∈ a.reads, V name) :
    P Scalar a.eval := by
  have hbind : (a.eval : Eval σ Scalar) =
      a.expr.eval >>= fun v => Eval.pure (v.getD a.default) := by
    funext s
    simp only [bind_apply, Arg.eval, Eval.pure, List.append_nil]
  rw [hbind]
  exact h.bind (h.expression a.expr ha) (fun _ => h.pure _)

theorem args (h : Inherited V P) (args : List Arg)
    (hargs : ∀ name ∈ args.flatMap Arg.reads, V name) :
    P (List Scalar) (Arg.evalAll args) := by
  induction args with
  | nil => exact h.pure []
  | cons a rest ih =>
      rw [List.flatMap_cons, List.forall_mem_append] at hargs
      refine h.bind (h.arg a hargs.1) (fun v => ?_)
      exact h.bind (ih hargs.2) (fun vs => h.pure (v :: vs))

theorem color (h : Inherited V P) (args : ColorArgs) (hargs : ∀ name ∈ args.reads, V name) :
    P Color args.eval := by
  cases args with
  | gray v => exact h.bind (h.arg v hargs) (fun _ => h.pure _)
  | rgba r g b a =>
      simp only [ColorArgs.reads, List.forall_mem_append] at hargs
      rcases hargs with ⟨⟨⟨hr, hg⟩, hb⟩, ha⟩
      refine h.bind (h.arg r hr) (fun _ => ?_)
      refine h.bind (h.arg g hg) (fun _ => ?_)
      refine h.bind (h.arg b hb) (fun _ => ?_)
      exact h.bind (h.arg a ha) (fun _ => h.pure _)

theorem resolve (h : Inherited V P) (i : Instruction) (hi : ∀ name ∈ i.reads, V name) :
    P Action i.resolve := by
  cases i with
  | turn amount clockwise =>
      cases amount with
      | none => exact h.pure _
      | some e => exact h.bind (h.expression e hi) (fun _ => h.pure _)
  | heading angle => exact h.bind (h.arg angle hi) (fun _ => h.pure _)
  | forward distance penDown =>
      cases distance with
      | none => exact h.pure _
      | some d => exact h.bind (h.arg d hi) (fun _ => h.pure _)
  | moveTo x y penDown =>
      rcases List.forall_mem_append.mp hi with ⟨hx, hy⟩
      refine h.bind (h.arg x hx) (fun _ => ?_)
      exact h.bind (h.arg y hy) (fun _ => h.pure _)
  | push => exact h.pure _
  | pop => exact h.pure _
  | step length => exact h.bind (h.arg length hi) (fun _ => h.pure _)
  | color args => exact h.bind (h.color args hi) (fun _ => h.pure _)
  | width w => exact h.bind (h.arg w hi) (fun _ => h.pure _)
  | flush mode => exact h.pure _
  | background args => exact h.bind (h.color args hi) (fun _ => h.pure _)
  | limit depth => exact h.bind (h.arg depth hi) (fun _ => h.pure _)
  | assign name value => exact h.bind (h.arg value hi) (fun _ => h.pure _)

end Inherited

/-- What an expression names is all that it reads. -/
theorem inherited_readsOnly (V : String → Prop) :
    Inherited V fun (α : Type) (x : Eval σ α) => x.ReadsOnly V where
  pure _ := fun _ _ _ _ h => ⟨rfl, rfl, h⟩
  bind := readsOnly_bind
  evaluate program hV := fun _ hR s t h => Evaluated.agrees_evaluateFrom hR program hV [] s t h

theorem reading_arg (a : Arg) : (a.eval : Eval σ Scalar).Reading :=
  ((inherited_readsOnly fun _ => True).arg a fun _ _ => trivial).reading

theorem reading_args (args : List Arg) : (Arg.evalAll args : Eval σ (List Scalar)).Reading :=
  ((inherited_readsOnly fun _ => True).args args fun _ _ => trivial).reading

theorem reading_resolve (i : Instruction) : (i.resolve : Eval σ Action).Reading :=
  ((inherited_readsOnly fun _ => True).resolve i fun _ _ => trivial).reading

end Eval

namespace Turtle

variable {α : Type}

/-- A turtle under another budget. -/
def withBudget (b : Option Nat) (t : Turtle) : Turtle := { t with budget := b }

theorem read_context (name : String) (t : Turtle) :
    ∃ r, (t.read name).2 = { t with random := r } := by
  unfold read
  cases Builtin.ofName? name with
  | none => exact ⟨t.random, rfl⟩
  | some b =>
      cases b with
      | random => exact ⟨t.random.next.2, rfl⟩
      | x | y | angle | step | width | height => exact ⟨t.random, rfl⟩

theorem read_withBudget (b : Option Nat) (name : String) (t : Turtle) :
    (t.withBudget b).read name = ((t.read name).1, (t.read name).2.withBudget b) := by
  unfold read
  cases Builtin.ofName? name with
  | none => rfl
  | some c => cases c <;> rfl

/-- Evaluation changes the random numbers and nothing else. The relation is the
    diagonal of the turtles that are `t` up to their random numbers. -/
theorem context_eq_of_reading {x : Eval Turtle α} (hx : x.Reading) (t : Turtle) :
    ∃ r, (x t).context = { t with random := r } := by
  have hagree : Variables.Agree fun s u : Turtle => s = u ∧ ∃ r, s = { t with random := r } := by
    rintro name s u ⟨rfl, r, rfl⟩
    refine ⟨rfl, rfl, ?_⟩
    rcases read_context name { t with random := r } with ⟨r', hr'⟩
    exact ⟨r', hr'⟩
  exact (hx _ hagree t t ⟨rfl, t.random, rfl⟩).context.2

/-- Observing changes the random numbers and appends to the log. -/
theorem observe_eq_of_reading {x : Eval Turtle α} (hx : x.Reading) (t : Turtle) :
    ∃ r, (t.observe x).2 = { t with random := r, log := t.log.reportAll (x t).faults } := by
  rcases context_eq_of_reading hx t with ⟨r, hr⟩
  refine ⟨r, ?_⟩
  simp only [observe, hr]

/-- Evaluation does not look at the budget. -/
theorem observe_withBudget {x : Eval Turtle α} (hx : x.Reading) (b : Option Nat) (t : Turtle) :
    (t.withBudget b).observe x = ((t.observe x).1, (t.observe x).2.withBudget b) := by
  have hagree : Variables.Agree fun s u : Turtle => u = s.withBudget b := by
    rintro name s u rfl
    have hread := read_withBudget b name s
    exact ⟨(congrArg Prod.fst hread).symm, congrArg Prod.snd hread⟩
  have h := hx _ hagree t (t.withBudget b) rfl
  simp only [observe]
  rw [← h.value, ← h.faults, h.context]
  rfl

end Turtle

end TurtleGraphics
