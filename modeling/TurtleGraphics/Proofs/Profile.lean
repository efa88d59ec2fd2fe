import Mathlib.Data.List.Basic
import Mathlib.Data.List.Induction
import TurtleGraphics.Proofs.Evaluation
import TurtleGraphics.Proofs.Infix

/-!
# The Height of the Stack

How many values lie on the stack while a program is evaluated can be told from the
program alone. A number or a variable adds one value, and an operator takes as many as
it has operands and adds one. `Rpn.height` counts along, without values and without a
context, and gives up at the first operator that would find too few of them.

The count decides what becomes of a program. As long as it has not given up, the steps
read so far are the programs of some terms, one behind the other, as many as are counted
(`exists_terms_of_height`). Terms always have a value, so a program up to there leaves
the values of these terms on the stack. Then either an operator is stuck, or the program
is at its end and the number of terms says whether there is a result.

All that evaluation does to its context is to read the variables it comes across, in
order. `Eval.Reads` says so of a computation, and a `Eval.verdict` is an outcome that is
known up to these readings.

## Main definitions

* `Rpn.height`: How many values a program leaves on the stack.
* `Term`: Expressions as trees with any operators, `Term.program` their steps and
  `Term.value` their values.
* `Term.pushAll`: The stack with the values of some terms on it.
* `Eval.readAll`: Reading some variables one after another.
* `Eval.Reads`: A computation that reads some variables and does nothing else to its
  context.
* `Eval.verdict`: An outcome that is known but for the variables that are read.

## Theorems

* `Rpn.height_eq_none_iff`: When the count gives up.
* `exists_terms_of_height`: Programs that can be counted are programs of terms.
* `Term.evaluateFrom_terms`: Programs of terms leave the values of these terms.
* `Eval.Reads.bind`: Computations read one after the other.
* `Term.reads_pushAll`: Which variables terms read.
* `evaluate_append`: Evaluation up to some step of a program.
* `evaluate_decided_by_height`: What becomes of a program is decided by its height.
-/

namespace TurtleGraphics

namespace Rpn

/-- How many values there are after a step, unless it is an operator with too few
    operands. -/
def rise (height : Nat) : Rpn → Option Nat
  | .number _ | .variable _ => some (height + 1)
  | .apply op => if op.arity ≤ height then some (height - op.arity + 1) else none

/-- How many values a program leaves on the stack, unless some operator of it has too few
    operands. -/
def height (program : List Rpn) : Option Nat := program.foldlM rise 0

theorem height_append (before after : List Rpn) :
    height (before ++ after) = (height before).bind fun n => after.foldlM rise n :=
  List.foldlM_append

theorem height_concat (program : List Rpn) (step : Rpn) :
    height (program ++ [step]) = (height program).bind fun n => step.rise n := by
  rw [height_append]
  refine congrArg (height program).bind (funext fun n => ?_)
  exact bind_pure (step.rise n)

theorem rise_eq_none_iff {height : Nat} {step : Rpn} :
    step.rise height = none ↔ ∃ op, step = .apply op ∧ height < op.arity := by
  cases step with
  | number v => exact ⟨nofun, nofun⟩
  | «variable» name => exact ⟨nofun, nofun⟩
  | apply op =>
      rw [rise]
      by_cases h : op.arity ≤ height
      · rw [if_pos h]
        refine ⟨nofun, ?_⟩
        rintro ⟨op', hop, hlt⟩
        cases hop
        omega
      · rw [if_neg h]
        exact ⟨fun _ => ⟨op, rfl, Nat.lt_of_not_le h⟩, fun _ => rfl⟩

/-- The count gives up exactly if some operator has too few operands, and then there is a
    first one. -/
theorem height_eq_none_iff {program : List Rpn} :
    height program = none ↔ ∃ (before : List Rpn) (op : Operator) (after : List Rpn) (n : Nat),
      program = before ++ .apply op :: after ∧ height before = some n ∧ n < op.arity := by
  constructor
  · intro h
    -- The last step is the first that cannot be counted, or one before it is.
    induction program using List.reverseRecOn with
    | nil => cases h
    | append_singleton program step ih =>
        rw [height_concat] at h
        cases hheight : height program with
        | none =>
            rcases ih hheight with ⟨before, op, after, n, rfl, hbefore, hn⟩
            exact ⟨before, op, after ++ [step], n, by simp, hbefore, hn⟩
        | some n =>
            rw [hheight, Option.bind_some] at h
            rcases rise_eq_none_iff.mp h with ⟨op, rfl, hn⟩
            exact ⟨program, op, [], n, rfl, hheight, hn⟩
  · rintro ⟨before, op, after, n, rfl, hbefore, hn⟩
    have hrise : (Rpn.apply op).rise n = none := rise_eq_none_iff.mpr ⟨op, rfl, hn⟩
    rw [height_append, hbefore, Option.bind_some, List.foldlM_cons, hrise]
    rfl

theorem reads_append (first second : List Rpn) :
    reads (first ++ second) = reads first ++ reads second := by
  induction first with
  | nil => rfl
  | cons step rest ih =>
      cases step with
      | «variable» name => exact congrArg (name :: ·) ih
      | number | apply => exact ih

end Rpn

/-- An expression as a tree, with any operators. -/
inductive Term where
  | number (v : Scalar)
  | variable (name : String)
  | unary (op : Unary) (a : Term)
  | binary (op : Binary) (a b : Term)

namespace Term

/-- The steps of a term: every operator comes after its operands. -/
def program : Term → List Rpn
  | .number v => [.number v]
  | .variable name => [.variable name]
  | .unary op a => a.program ++ [.apply (.unary op)]
  | .binary op a b => a.program ++ b.program ++ [.apply (.binary op)]

/-- The value of a term, with its operands evaluated from left to right. -/
def value {σ : Type} [Variables σ] : Term → Eval σ Scalar
  | .number v => Eval.pure v
  | .variable name => Formula.lookUp name
  | .unary op a => do return op.apply (← a.value)
  | .binary op a b => do
    let x ← a.value
    let y ← b.value
    return op.apply x y

/-- Puts the values of terms on a stack, one after the other. -/
def pushAll {σ : Type} [Variables σ] : List Term → List Scalar → Eval σ (List Scalar)
  | [], stack => Eval.pure stack
  | t :: terms, stack => do
    let v ← t.value
    pushAll terms (v :: stack)

end Term

/-- A step that can be counted makes programs of terms out of programs of terms: an operand
    is one term more, and an operator takes the last terms as its operands. -/
theorem exists_terms_of_rise {terms : List Term} {step : Rpn} {n : Nat}
    (h : step.rise terms.length = some n) :
    ∃ terms' : List Term,
      terms.flatMap Term.program ++ [step] = terms'.flatMap Term.program ∧ terms'.length = n := by
  cases step with
  | number v =>
      refine ⟨terms ++ [.number v], by rw [List.flatMap_append]; rfl, ?_⟩
      rw [List.length_append]
      exact Option.some.inj h
  | «variable» name =>
      refine ⟨terms ++ [.variable name], by rw [List.flatMap_append]; rfl, ?_⟩
      rw [List.length_append]
      exact Option.some.inj h
  | apply op =>
      rw [Rpn.rise, Option.ite_none_right_eq_some, Option.some.injEq] at h
      rcases h with ⟨hle, rfl⟩
      rcases List.eq_nil_or_concat' terms with rfl | ⟨rest, b, rfl⟩
      · cases op <;> cases hle
      cases op with
      | unary op =>
          refine ⟨rest ++ [.unary op b], ?_, ?_⟩
          · simp only [List.flatMap_append, List.flatMap_singleton, Term.program,
              List.append_assoc]
          · simp only [List.length_append, List.length_singleton, Operator.arity,
              Nat.add_sub_cancel]
      | binary op =>
          rcases List.eq_nil_or_concat' rest with rfl | ⟨rest, a, rfl⟩
          · exact absurd hle (by simp only [List.nil_append, List.length_singleton, Operator.arity,
              Nat.reduceLeDiff, not_false_eq_true])
          refine ⟨rest ++ [.binary op a b], ?_, ?_⟩
          · simp only [List.flatMap_append, List.flatMap_singleton, Term.program,
              List.append_assoc]
          · simp only [List.length_append, List.length_singleton, Operator.arity]
            omega

/-- Steps that can be counted are the programs of some terms, one behind the other, and as
    many as are counted. -/
theorem exists_terms_of_height {program : List Rpn} {n : Nat} (h : Rpn.height program = some n) :
    ∃ terms : List Term, program = terms.flatMap Term.program ∧ terms.length = n := by
  induction program using List.reverseRecOn generalizing n with
  | nil => exact ⟨[], rfl, Option.some.inj h⟩
  | append_singleton program step ih =>
      rw [Rpn.height_concat] at h
      rcases Option.bind_eq_some_iff.mp h with ⟨m, hm, hrise⟩
      rcases ih hm with ⟨terms, rfl, rfl⟩
      exact exists_terms_of_rise hrise

namespace Eval

variable {σ : Type} [Variables σ] {α β : Type}

/-- Reads variables one after another. Each that has no value is reported. -/
def readAll : List String → Eval σ Unit
  | [] => Eval.pure ()
  | name :: names => do
    let _ ← Formula.lookUp name
    readAll names

/-- A computation that reads the variables `names` in this order, reports those that have
    no value, and neither reports anything else nor changes its context otherwise. -/
def Reads (x : Eval σ α) (names : List String) : Prop :=
  ∀ s, (x s).faults = (readAll names s).faults ∧ (x s).context = (readAll names s).context

theorem reads_pure (a : α) : (Eval.pure a : Eval σ α).Reads [] := fun _ => ⟨rfl, rfl⟩

theorem reads_lookUp (name : String) : (Formula.lookUp name : Eval σ Scalar).Reads [name] := by
  intro s
  refine ⟨(List.append_nil _).symm, rfl⟩

theorem readAll_append (first second : List String) (s : σ) :
    readAll (first ++ second) s =
      ⟨(), (readAll first s).faults ++ (readAll second (readAll first s).context).faults,
        (readAll second (readAll first s).context).context⟩ := by
  induction first generalizing s with
  | nil => rfl
  | cons name names ih =>
      simp only [List.cons_append, readAll, bind_apply, ih, List.append_assoc]

/-- Computations read one after the other. -/
theorem Reads.bind {x : Eval σ α} {f : α → Eval σ β} {first second : List String}
    (hx : x.Reads first) (hf : ∀ a, (f a).Reads second) : (x >>= f).Reads (first ++ second) := by
  intro s
  rcases hx s with ⟨hfaults, hcontext⟩
  rcases hf (x s).value (x s).context with ⟨hfaults', hcontext'⟩
  rw [readAll_append, bind_apply, hfaults', hcontext', hfaults, hcontext]
  exact ⟨rfl, rfl⟩

theorem Reads.map {x : Eval σ α} {names : List String} (hx : x.Reads names) (f : α → β) :
    (x >>= fun a => Pure.pure (f a)).Reads names := by
  have h := hx.bind fun a => reads_pure (f a)
  rwa [List.append_nil] at h

/-- What is known to come out after the variables `names` have been read, however they
    read: the value and the problems met after the reading. -/
def verdict (names : List String) (value : α) (faults : List Fault) : Eval σ α := fun s =>
  ⟨value, (readAll names s).faults ++ faults, (readAll names s).context⟩

end Eval

namespace Term

variable {σ : Type} [Variables σ]

theorem reads_value (t : Term) : (t.value : Eval σ Scalar).Reads (Rpn.reads t.program) := by
  induction t with
  | number v => exact Eval.reads_pure v
  | «variable» name => exact Eval.reads_lookUp name
  | unary op a ih =>
      rw [program, Rpn.reads_append]
      have hmap := ih.map op.apply
      rwa [← List.append_nil (Rpn.reads a.program)] at hmap
  | binary op a b iha ihb =>
      have hbind := iha.bind fun x => ihb.map (op.apply x)
      rw [← Rpn.reads_append] at hbind
      rw [program, Rpn.reads_append]
      rwa [← List.append_nil (Rpn.reads (a.program ++ b.program))] at hbind

theorem reads_pushAll (terms : List Term) (stack : List Scalar) :
    (pushAll terms stack : Eval σ (List Scalar)).Reads
      (Rpn.reads (terms.flatMap program)) := by
  induction terms generalizing stack with
  | nil => exact Eval.reads_pure stack
  | cons t terms ih =>
      rw [List.flatMap_cons, Rpn.reads_append]
      exact t.reads_value.bind fun v => ih (v :: stack)

theorem length_pushAll (terms : List Term) (stack : List Scalar) (s : σ) :
    (pushAll terms stack s).value.length = stack.length + terms.length := by
  induction terms generalizing stack s with
  | nil => rfl
  | cons t terms ih =>
      rw [pushAll, Eval.bind_apply, ih, List.length_cons, List.length_cons]
      omega

theorem computes_program (t : Term) : Computes t.program (t.value : Eval σ Scalar) := by
  induction t with
  | number v => exact .number v
  | «variable» name => exact .variable name
  | unary op a ih => exact ih.unary op
  | binary op a b iha ihb => exact iha.binary ihb op

/-- Programs of terms leave the values of the terms on the stack. -/
theorem evaluateFrom_terms (terms : List Term) (rest : List Rpn) (stack : List Scalar) :
    (evaluateFrom (terms.flatMap program ++ rest) stack : Eval σ (Option Scalar))
      = pushAll terms stack >>= fun stack => evaluateFrom rest stack := by
  induction terms generalizing stack with
  | nil => rfl
  | cons t terms ih =>
      rw [List.flatMap_cons, List.append_assoc, t.computes_program]
      funext s
      simp only [pushAll, Eval.bind_apply, ih, List.append_assoc]

end Term

section

variable {σ : Type} [Variables σ]

/-- Evaluation up to some step: the variables before it have been read, and the values of
    the terms before it are on the stack. -/
theorem evaluate_append (terms : List Term) (rest : List Rpn) (s : σ) :
    let names := Rpn.reads (terms.flatMap Term.program)
    let r := evaluateFrom rest (Term.pushAll terms [] s).value (Eval.readAll names s).context
    evaluate (terms.flatMap Term.program ++ rest) s
      = ⟨r.value, (Eval.readAll names s).faults ++ r.faults, r.context⟩ := by
  intro names r
  rcases Term.reads_pushAll terms [] s with ⟨hfaults, hcontext⟩
  rw [evaluate, Term.evaluateFrom_terms, Eval.bind_apply, hfaults, hcontext]

/-- At the end of a program the values on the stack decide. -/
theorem evaluate_terms {terms : List Term} {s : σ} {values : List Scalar}
    (h : (Term.pushAll terms [] s).value = values) :
    evaluate (terms.flatMap Term.program) s
      = Eval.verdict (Rpn.reads (terms.flatMap Term.program)) (conclude values).1
          (conclude values).2 s := by
  have happend := evaluate_append terms [] s
  rw [List.append_nil, h] at happend
  exact happend

theorem conclude_of_finite {v : Scalar} (h : v.isFinite = true) :
    conclude [v]
      = (some (clampResult v), if maxResult < v ∨ v < minResult then [.truncated] else []) := by
  simp only [conclude, if_pos h, Bool.or_eq_true, decide_eq_true_eq]

theorem conclude_of_not_finite {v : Scalar} (h : v.isFinite = false) :
    conclude [v] = (none, [.notNumber]) := by
  simp only [conclude, h, Bool.false_eq_true, if_false]

/-- An operator that finds too few values ends the evaluation. -/
theorem evaluateFrom_of_length_lt {op : Operator} {stack : List Scalar}
    (h : stack.length < op.arity) (rest : List Rpn) (s : σ) :
    evaluateFrom (.apply op :: rest) stack s = ⟨none, [.missingOperands op.symbol], s⟩ := by
  cases op with
  | unary op =>
      cases stack with
      | nil => rfl
      | cons a stack => exact absurd h (by simp only [List.length_cons, Operator.arity]; omega)
  | binary op =>
      rcases stack with _ | ⟨b, _ | ⟨a, stack⟩⟩
      · rfl
      · rfl
      · exact absurd h (by simp only [List.length_cons, Operator.arity]; omega)

end

/-- What becomes of a program is decided by its height, in every context alike. If an
    operator has too few operands, the first such operator is reported, and the variables
    before it have been read. Otherwise all variables are read. A program without values
    is empty and gives nothing. One that leaves several values gives nothing and is
    reported. One that leaves a single value is the program of a term, and it gives the
    value of the term, brought into the permitted range, or is reported if that value is
    not finite. Apart from variables without a value, which are reported as they are read,
    nothing else is reported. -/
theorem evaluate_decided_by_height (program : List Rpn) :
    (Rpn.height program = none ↔
        ∃ (before : List Rpn) (op : Operator) (after : List Rpn) (n : Nat),
          program = before ++ .apply op :: after ∧ Rpn.height before = some n ∧ n < op.arity) ∧
      (∀ (before : List Rpn) (op : Operator) (after : List Rpn) (n : Nat),
        program = before ++ .apply op :: after → Rpn.height before = some n → n < op.arity →
          ∀ (σ : Type) [Variables σ] (s : σ), evaluate program s
            = Eval.verdict (Rpn.reads before) none [.missingOperands op.symbol] s) ∧
      (Rpn.height program = some 0 →
        program = [] ∧ ∀ (σ : Type) [Variables σ] (s : σ), evaluate program s = ⟨none, [], s⟩) ∧
      (∀ n, 1 < n → Rpn.height program = some n →
        ∀ (σ : Type) [Variables σ] (s : σ), evaluate program s
          = Eval.verdict (Rpn.reads program) none [.operatorExpected] s) ∧
      (Rpn.height program = some 1 → ∃ t : Term, program = t.program ∧
        ∀ (σ : Type) [Variables σ] (s : σ),
          let v := (t.value s).value
          (v.isFinite = true → evaluate program s
            = Eval.verdict (Rpn.reads program) (some (clampResult v))
                (if maxResult < v ∨ v < minResult then [.truncated] else []) s) ∧
          (v.isFinite = false → evaluate program s
            = Eval.verdict (Rpn.reads program) none [.notNumber] s)) := by
  refine ⟨Rpn.height_eq_none_iff, ?_, ?_, ?_, ?_⟩
  · -- The operator is met with the values of the terms before it, which are too few.
    rintro before op after n rfl hbefore hn σ _ s
    rcases exists_terms_of_height hbefore with ⟨terms, rfl, rfl⟩
    have hlength : (Term.pushAll terms [] s).value.length < op.arity := by
      rw [Term.length_pushAll, List.length_nil, Nat.zero_add]
      exact hn
    rw [evaluate_append, evaluateFrom_of_length_lt hlength]
    rfl
  · intro h
    rcases exists_terms_of_height h with ⟨terms, rfl, hlength⟩
    rw [List.length_eq_zero_iff.mp hlength]
    exact ⟨rfl, fun _ _ _ => rfl⟩
  · intro n hn h σ _ s
    rcases exists_terms_of_height h with ⟨terms, rfl, rfl⟩
    have hlength := Term.length_pushAll terms [] s
    rcases hvalues : (Term.pushAll terms [] s).value with _ | ⟨v, _ | ⟨w, values⟩⟩
    · rw [hvalues, List.length_nil] at hlength
      omega
    · rw [hvalues, List.length_singleton, List.length_nil] at hlength
      omega
    · rw [evaluate_terms hvalues]
      rfl
  · intro h
    rcases exists_terms_of_height h with ⟨terms, rfl, hlength⟩
    rcases List.length_eq_one_iff.mp hlength with ⟨t, rfl⟩
    refine ⟨t, List.flatMap_singleton _ t, fun σ _ s => ?_⟩
    have hvalues : (Term.pushAll [t] [] s).value = [(t.value s).value] := rfl
    rw [evaluate_terms hvalues]
    refine ⟨fun hfinite => ?_, fun hfinite => ?_⟩
    · rw [conclude_of_finite hfinite]
    · rw [conclude_of_not_finite hfinite]

/-- In `$A $B + *` the second operator has one operand. Without it the program has a value,
    and without both there is an operator missing. -/
theorem evaluate_decided_by_height_sum :
    let operands : List Rpn := [.variable "A", .variable "B"]
    let sum : List Rpn := operands ++ [.apply (.binary .add)]
    let stuck : List Rpn := sum ++ [.apply (.binary .multiply)]
    (Rpn.height sum = some 1 ∧ ∀ t : Turtle,
        evaluate stuck t = Eval.verdict ["A", "B"] none [.missingOperands '*'] t) ∧
      (Rpn.height operands = some 2 ∧ ∀ t : Turtle,
        evaluate operands t = Eval.verdict ["A", "B"] none [.operatorExpected] t) ∧
      (Rpn.height [] = some 0 ∧ ∀ t : Turtle, evaluate [] t = ⟨none, [], t⟩) ∧
      ∃ term : Term, sum = term.program ∧ ∀ t : Turtle,
        (term.value t).value.isFinite = false →
          evaluate sum t = Eval.verdict ["A", "B"] none [.notNumber] t := by
  intro operands sum stuck
  rcases (evaluate_decided_by_height sum).2.2.2.2 rfl with ⟨term, hterm, hvalue⟩
  refine ⟨⟨rfl, fun t => ?_⟩, ⟨rfl, fun t => ?_⟩, ⟨rfl, fun t => ?_⟩,
    ⟨term, hterm, fun t => (hvalue Turtle t).2⟩⟩
  · exact (evaluate_decided_by_height stuck).2.1 sum (.binary .multiply) [] 1 rfl rfl
      (by decide) Turtle t
  · exact (evaluate_decided_by_height operands).2.2.2.1 2 (by decide) rfl Turtle t
  · exact ((evaluate_decided_by_height []).2.2.1 rfl).2 Turtle t

end TurtleGraphics
