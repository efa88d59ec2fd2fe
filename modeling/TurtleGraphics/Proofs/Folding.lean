import TurtleGraphics.Proofs.Conservation
import TurtleGraphics.Proofs.Prefixes
import TurtleGraphics.Proofs.Profile

/-!
# Values Known in Advance

An expression without variables is evaluated when it is read, in a context that knows no
variables at all, and its value is kept. One with variables is evaluated when it is used,
by a turtle. Here the two ways are shown to be one.

Where a program has no variables, the context cannot make a difference: a context is
never asked for anything, so the empty one will do. Where it has some and each of them
has a value that stays, the program can be given these values in place of the variables
(`evaluateFrom_substitute`). Both hold for programs that make no sense as well, since an
operator without operands is stuck in every context.

So an argument can be thought of as its program, evaluated when it is used, with the
default where there is no value. Only the time at which problems are reported is
different: with variables all of them are reported when the argument is used, without
variables when it is read.

## Main definitions

* `Rpn.substitute`: A step with a value in place of a variable.
* `Variables.Fixed`: Variables that keep their values.
* `Expression.unfolded`: Evaluating the program of a text, whatever is in it.

## Theorems

* `Rpn.reads_ofTokens`: Programs read the variables of their tokens.
* `Variables.Fixed.of_read`: Reading that changes nothing.
* `evaluate_of_reads_nil`: Without variables every context will do.
* `evaluateFrom_substitute`: Variables can be replaced by their values.
* `Arg.eval_ofOption_parse`: An argument is the program of its text.
* `folding_preserves`: Constant folding and substitution keep the value.
-/

namespace TurtleGraphics

namespace Rpn

/-- The step itself, or the value of the variable that it reads. -/
def substitute (values : String → Scalar) : Rpn → Rpn
  | .variable name => .number (values name)
  | step => step

theorem mem_reads_iff {program : List Rpn} {name : String} :
    name ∈ reads program ↔ .variable name ∈ program := by
  induction program with
  | nil => exact ⟨nofun, nofun⟩
  | cons step rest ih =>
      cases step with
      | «variable» other => simp only [reads, List.mem_cons, ih, Rpn.variable.injEq]
      | number v => simp only [reads, List.mem_cons, ih, reduceCtorEq, false_or]
      | apply op => simp only [reads, List.mem_cons, ih, reduceCtorEq, false_or]

/-- A program reads no other variables than there are among its tokens. -/
theorem variable_mem_of_mem_reads {tokens : List Token} {program : List Rpn} {name : String}
    (h : (ofTokens tokens).1 = some program) (hname : name ∈ reads program) :
    Token.variable name ∈ tokens := by
  rw [Yard.result_ofTokens, Yard.result] at h
  by_cases hunclosed : (tokens.foldl Yard.accept {}).unclosed = true
  · rw [if_pos hunclosed] at h
    cases h
  · -- What waits at the end are operators, so the variable is in the output already.
    rw [if_neg hunclosed, Option.some.injEq] at h
    rw [mem_reads_iff, ← h, List.mem_reverse] at hname
    have hoperand : Rpn.variable name ∈ (Yard.drain (tokens.foldl Yard.accept {}).stack
        (tokens.foldl Yard.accept {}).output).filterMap operand? :=
      List.mem_filterMap.mpr ⟨.variable name, hname, rfl⟩
    rw [Yard.drain_eq_sent, Yard.filterMap_operand?_sent, Yard.operands_foldl_accept,
      List.filterMap_nil, List.append_nil, List.mem_reverse, List.mem_filterMap] at hoperand
    rcases hoperand with ⟨t, ht, hvariable⟩
    cases t with
    | «variable» other =>
        cases hvariable
        exact ht
    | _ => cases hvariable

/-- Without variables among the tokens none is read. -/
theorem reads_ofTokens {tokens : List Token} {program : List Rpn}
    (h : (ofTokens tokens).1 = some program) (hnone : tokens.any Token.isVariable = false) :
    reads program = [] := by
  refine List.eq_nil_iff_forall_not_mem.mpr fun name hname => ?_
  have hmem := variable_mem_of_mem_reads h hname
  exact Bool.false_ne_true (hnone.symm.trans (List.any_eq_true.mpr ⟨_, hmem, rfl⟩))

end Rpn

section

variable {σ τ : Type} [Variables σ] [Variables τ]

/-- Any two contexts evaluate a program without variables alike, and neither changes. -/
theorem evaluate_of_reads_nil {program : List Rpn} (h : Rpn.reads program = []) (s : σ) (t : τ) :
    evaluate program s = ⟨(evaluate program t).value, (evaluate program t).faults, s⟩ := by
  have hnone : ∀ name ∈ Rpn.reads program, False := by
    intro name hname
    rw [h] at hname
    cases hname
  -- No variable has to read alike, so the two contexts can be pinned down.
  have hagrees : Evaluated.Agrees (fun s' t' => s' = s ∧ t' = t) (evaluate program s)
      (evaluate program t) :=
    Evaluated.agrees_evaluateFrom (fun _ hname => hname.elim) program hnone [] s t ⟨rfl, rfl⟩
  rw [← hagrees.value, ← hagrees.faults]
  exact congrArg (Evaluated.mk _ _) hagrees.context.1

/-- The variables `names` have these values, and they keep them however often and in
    whatever order they are read. -/
def Variables.Fixed (names : List String) (values : String → Scalar) (s : σ) : Prop :=
  ∀ before : List String, before ⊆ names → ∀ name ∈ names,
    (Variables.read name (Eval.readAll before s).context).1 = some (values name)

namespace Variables.Fixed

variable {names : List String} {values : String → Scalar} {s : σ} {name : String}

/-- Variables keep their values where reading them changes nothing. -/
theorem of_read (h : ∀ name ∈ names, Variables.read name s = (some (values name), s)) :
    Fixed names values s := by
  have hcontext : ∀ before : List String, before ⊆ names →
      (Eval.readAll before s).context = s := by
    intro before
    induction before with
    | nil => exact fun _ => rfl
    | cons name before ih =>
        intro hbefore
        rcases List.cons_subset.mp hbefore with ⟨hname, hbefore⟩
        rw [Eval.readAll, Eval.bind_apply, Formula.lookUp, h name hname]
        exact ih hbefore
  intro before hbefore name hname
  rw [hcontext before hbefore, h name hname]

theorem read_eq (h : Fixed names values s) (hname : name ∈ names) :
    Variables.read name s = (some (values name), (Variables.read name s).2) :=
  Prod.ext (h [] (List.nil_subset _) name hname) rfl

theorem after_read (h : Fixed names values s) (hname : name ∈ names) :
    Fixed names values (Variables.read name s).2 := by
  intro before hbefore other hother
  have hread := h (name :: before) (List.cons_subset.mpr ⟨hname, hbefore⟩) other hother
  rw [Eval.readAll, Eval.bind_apply, Formula.lookUp, h.read_eq hname] at hread
  exact hread

end Variables.Fixed

/-- Variables can be replaced by their values. What is left reads nothing, so it can be
    evaluated in any other context `t`. -/
theorem evaluateFrom_substitute {names : List String} {values : String → Scalar}
    {program : List Rpn} (hprogram : Rpn.reads program ⊆ names) (stack : List Scalar) {s : σ}
    (h : Variables.Fixed names values s) (t : τ) :
    let r := evaluateFrom program stack s
    evaluateFrom (program.map (Rpn.substitute values)) stack t = ⟨r.value, r.faults, t⟩ := by
  induction program generalizing stack s with
  | nil => rfl
  | cons step rest ih =>
      cases step with
      | number v => exact ih hprogram (v :: stack) h
      | «variable» name =>
          rcases List.cons_subset.mp hprogram with ⟨hname, hrest⟩
          have hread := ih hrest (values name :: stack) (h.after_read hname)
          simp only [evaluateFrom]
          rw [h.read_eq hname]
          exact hread
      | apply op =>
          -- The stacks are the same, so an operator is stuck on both sides or on neither.
          cases op with
          | unary op =>
              cases stack with
              | nil => rfl
              | cons a stack => exact ih hprogram (op.apply a :: stack) h
          | binary op =>
              rcases stack with _ | ⟨b, _ | ⟨a, stack⟩⟩
              · rfl
              · rfl
              · exact ih hprogram (op.apply a b :: stack) h

/-- Evaluates the program of a text, with variables or without. A text in which a bracket
    stays open has no program and no value. -/
def Expression.unfolded (text : List Char) : Eval σ (Option Scalar) :=
  match (Rpn.ofTokens (tokenize text).tokens).1 with
  | some program => evaluate program
  | none => Eval.pure none

end

/-- The value that was computed when the text was read is the one that its program has in
    every context. -/
theorem Expression.parse_of_no_variable {σ : Type} [Variables σ] {text : List Char}
    {program : List Rpn} (hnone : (tokenize text).tokens.any Token.isVariable = false)
    (h : (Rpn.ofTokens (tokenize text).tokens).1 = some program) (s : σ) :
    parse text = ((evaluate program s).value.map constant,
      (tokenize text).faults ++ (Rpn.ofTokens (tokenize text).tokens).2 ++
        (evaluate program s).faults) := by
  rcases hprogram : Rpn.ofTokens (tokenize text).tokens with ⟨result, faults⟩
  rw [hprogram] at h
  simp only at h
  subst h
  have hreads := Rpn.reads_ofTokens (congrArg Prod.fst hprogram) hnone
  simp only [parse, hprogram, hnone, Bool.false_eq_true, if_false]
  rw [evaluate_of_reads_nil hreads s ()]

/-- An argument is the program of its text, evaluated when the argument is used. All that
    the reading of the text has reported would otherwise be reported then. -/
theorem Arg.eval_ofOption_parse {σ : Type} [Variables σ] (text : List Char) (default : Scalar)
    (s : σ) :
    let a := ofOption (Expression.parse text).1 default
    let r := Expression.unfolded text s
    (a.eval s).value = r.value.getD default ∧ (a.eval s).context = r.context ∧
      (Expression.parse text).2 ++ (a.eval s).faults
        = (tokenize text).faults ++ (Rpn.ofTokens (tokenize text).tokens).2 ++ r.faults := by
  intro a r
  rcases hprogram : Rpn.ofTokens (tokenize text).tokens with ⟨_ | program, faults⟩
  · -- No program: the default is a constant, and all problems have been reported.
    have hparse : Expression.parse text = (none, (tokenize text).faults ++ faults) := by
      simp only [Expression.parse, hprogram]
    have hr : r = ⟨none, [], s⟩ := by
      simp only [r, Expression.unfolded, hprogram]
      rfl
    simp only [a, hparse, hr]
    exact ⟨rfl, rfl, rfl⟩
  · have hr : r = evaluate program s := by
      simp only [r, Expression.unfolded, hprogram]
    cases hvariables : (tokenize text).tokens.any Token.isVariable with
    | true =>
        have hparse : Expression.parse text
            = (some (.deferred program), (tokenize text).faults ++ faults) := by
          simp only [Expression.parse, hprogram, hvariables, if_true]
        simp only [a, hparse, hr]
        exact ⟨rfl, rfl, rfl⟩
    | false =>
        have hfirst : (Rpn.ofTokens (tokenize text).tokens).1 = some program :=
          congrArg Prod.fst hprogram
        have hparse := Expression.parse_of_no_variable hvariables hfirst s
        have hreads := Rpn.reads_ofTokens hfirst hvariables
        have hcontext : (evaluate program s).context = s :=
          congrArg Evaluated.context (evaluate_of_reads_nil hreads s s)
        rw [hprogram] at hparse
        simp only [a, hparse, hr]
        refine ⟨?_, ?_, ?_⟩
        · -- Without a value the default is kept twice, as the constant and as itself.
          cases (evaluate program s).value <;> rfl
        · rw [hcontext]
          cases (evaluate program s).value <;> rfl
        · cases (evaluate program s).value <;> exact List.append_nil _

/-- Constant folding and substitution keep the value. A text without variables has a program
    that reads none, leaves every context as it is and has the value in it that was computed
    when the text was read. In a context where the variables of a program keep their values,
    the program has the value, and reports the problems, that it has with these values put in
    their places. An argument therefore has the value of the program of its text, or the
    default; the problems are the same ones in the same order, though some are reported when
    the text is read. -/
theorem folding_preserves {σ τ : Type} [Variables σ] [Variables τ] (s : σ) (t : τ) :
    (∀ (text : List Char) (program : List Rpn),
        (tokenize text).tokens.any Token.isVariable = false →
        (Rpn.ofTokens (tokenize text).tokens).1 = some program →
        Rpn.reads program = [] ∧ (evaluate program s).context = s ∧
          (Expression.parse text).1 = (evaluate program s).value.map .constant) ∧
      (∀ (program : List Rpn) (values : String → Scalar),
        Variables.Fixed (Rpn.reads program) values s →
        let r := evaluate program s
        evaluate (program.map (Rpn.substitute values)) t = ⟨r.value, r.faults, t⟩) ∧
      ∀ (text : List Char) (default : Scalar),
        let a := Arg.ofOption (Expression.parse text).1 default
        let r := Expression.unfolded text s
        (a.eval s).value = r.value.getD default ∧ (a.eval s).context = r.context ∧
          (Expression.parse text).2 ++ (a.eval s).faults
            = (tokenize text).faults ++ (Rpn.ofTokens (tokenize text).tokens).2 ++ r.faults := by
  refine ⟨fun text program hnone h => ?_, fun program values hfixed => ?_, fun text default => ?_⟩
  · have hreads := Rpn.reads_ofTokens h hnone
    refine ⟨hreads, congrArg Evaluated.context (evaluate_of_reads_nil hreads s s), ?_⟩
    rw [Expression.parse_of_no_variable hnone h s]
  · exact evaluateFrom_substitute (List.Subset.refl _) [] hfixed t
  · exact Arg.eval_ofOption_parse text default s

/-- Two times three, and the sum of two variables that a new turtle knows. -/
theorem folding_preserves_sum :
    let t := Turtle.ofSize ⟨500.0, 500.0⟩ 100
    let product : List Rpn := [.number 2.0, .number 3.0, .apply (.binary .multiply)]
    let sum : List Rpn := [.variable "X", .variable "S", .apply (.binary .add)]
    (Expression.parse "2*3".toList).1 = (evaluate product t).value.map .constant ∧
      evaluate [.number 0.0, .number 20.0, .apply (.binary .add)] ()
        = ⟨(evaluate sum t).value, (evaluate sum t).faults, ()⟩ ∧
      ((Arg.ofOption (Expression.parse "2*3".toList).1 1.0).eval t).value
        = (Expression.unfolded "2*3".toList t).value.getD 1.0 := by
  intro t product sum
  have htokens : (tokenize "2*3".toList).tokens
      = [.number 2.0, .operator (.binary .multiply), .number 3.0] := by
    decide +kernel
  let values : String → Scalar := fun name => if name = "S" then 20.0 else 0.0
  have hvalues : sum.map (Rpn.substitute values)
      = [.number 0.0, .number 20.0, .apply (.binary .add)] := by
    simp [sum, values, Rpn.substitute]
  have hfixed : Variables.Fixed (Rpn.reads sum) values t := by
    refine .of_read fun name hname => ?_
    have hread : t.read "X" = (some 0.0, t) ∧ t.read "S" = (some 20.0, t) := ⟨rfl, rfl⟩
    rcases List.mem_pair.mp hname with rfl | rfl
    · rw [show values "X" = 0.0 by simp [values]]
      exact hread.1
    · rw [show values "S" = 20.0 by simp [values]]
      exact hread.2
  rcases folding_preserves t () with ⟨hfolded, hsubstituted, hargument⟩
  refine ⟨?_, ?_, (hargument _ _).1⟩
  · refine (hfolded _ product ?_ ?_).2.2
    · rw [htokens]
      rfl
    · rw [htokens]
      rfl
  · rw [← hvalues]
    exact hsubstituted sum values hfixed

end TurtleGraphics
