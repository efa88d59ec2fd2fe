import TurtleGraphics.Expression.Rpn

/-!
# The Yard, Step by Step

How the two stacks of the yard move. Three things send waiting operators to the
output: an operator that yields to them, a closing bracket, and the end of the
tokens. They differ only in where they stop, so all three are described by `sent`,
the output after some operators have left the stack for it.

Two frame lemmas say what a yard does not look at. It never looks at its output, so
what stands there already stays in front of everything else (`foldl_accept_output`).
And above an open bracket it never looks below that bracket, so a bracketed part is
brought into order as if it stood alone (`foldl_accept_enclosed`).

## Main definitions

* `Yard.sent`: The output after waiting operators have been sent to it.
* `Yard.Holds`: An operator sends nothing of a stack to the output.
* `Yard.prefixed`, `Yard.above`: A yard with more output, or with more below its
  stack.
* `bracketed`: Tokens with a pair of brackets around them.

## Theorems

* `Yard.release_waiting`: Arriving operators send those they yield to.
* `Yard.close_waiting`: Closing brackets send all operators of the bracket.
* `Yard.drain_waiting`: The end of the tokens sends all operators.
* `Yard.accept_operator`: What an operator does to a stack of operators.
* `Yard.foldl_accept_output`: The output so far plays no part.
* `Yard.foldl_accept_enclosed`: What lies below an open bracket plays no part.
* `Rpn.ofTokens_eq_some_iff`: When tokens have a program and no fault.
* `Yard.foldl_accept_bracketed`: A bracketed part is one operand.
-/

namespace TurtleGraphics

namespace Yard

/-- The output after waiting operators, the latest first, have been sent to it. -/
def sent (ops : List Operator) (output : List Rpn) : List Rpn :=
  (ops.map Rpn.apply).reverse ++ output

@[simp]
theorem sent_nil (output : List Rpn) : sent [] output = output := rfl

@[simp]
theorem sent_cons (op : Operator) (ops : List Operator) (output : List Rpn) :
    sent (op :: ops) output = sent ops (.apply op :: output) := by
  simp only [sent, List.map_cons, List.reverse_cons, List.append_assoc, List.singleton_append]

theorem sent_append (first second : List Operator) (output : List Rpn) :
    sent (first ++ second) output = sent second (sent first output) := by
  simp only [sent, List.map_append, List.reverse_append, List.append_assoc]

theorem reverse_sent (ops : List Operator) (output : List Rpn) :
    (sent ops output).reverse = output.reverse ++ ops.map Rpn.apply := by
  rw [sent, List.reverse_append, List.reverse_reverse]

/-- The operator sends nothing of the stack to the output: whatever is on top is a
    bracket, or an operator that it does not yield to. -/
def Holds (op : Operator) (stack : List Waiting) : Prop :=
  ∀ head, stack.head? = some (.operator head) → op.yieldsTo head = false

theorem release_of_holds {op : Operator} {stack : List Waiting} (h : Holds op stack)
    (output : List Rpn) : release op stack output = (output, stack) := by
  cases stack with
  | nil => rfl
  | cons top rest =>
      cases top with
      | bracket => rfl
      | operator head =>
          have hhead := h head rfl
          simp only [release, hhead, Bool.false_eq_true, if_false]

/-- Waiting operators to which an arriving one yields are sent to the output, and
    the rest of the stack is treated as if they had not been there. -/
theorem release_waiting {op : Operator} {ops : List Operator}
    (hyields : ∀ head ∈ ops, op.yieldsTo head = true) (stack : List Waiting)
    (output : List Rpn) :
    release op (ops.map .operator ++ stack) output = release op stack (sent ops output) := by
  induction ops generalizing output with
  | nil => rfl
  | cons head rest ih =>
      have hhead := hyields head List.mem_cons_self
      rw [List.map_cons, List.cons_append, release, if_pos hhead,
        ih (fun o ho => hyields o (List.mem_cons_of_mem head ho)), sent_cons]

theorem close_waiting (ops : List Operator) (stack : List Waiting) (output : List Rpn)
    (stray : Bool) :
    close (ops.map .operator ++ stack) output stray = close stack (sent ops output) stray := by
  induction ops generalizing output with
  | nil => rfl
  | cons head rest ih => rw [List.map_cons, List.cons_append, close, ih, sent_cons]

theorem drain_waiting (ops : List Operator) (stack : List Waiting) (output : List Rpn) :
    drain (ops.map .operator ++ stack) output = drain stack (sent ops output) := by
  induction ops generalizing output with
  | nil => rfl
  | cons head rest ih => rw [List.map_cons, List.cons_append, drain, ih, sent_cons]

/-- An operator that yields to the operators on top and holds the rest joins the
    rest of the stack. -/
theorem accept_operator {op : Operator} {ops : List Operator}
    (hyields : ∀ head ∈ ops, op.yieldsTo head = true) {stack : List Waiting}
    (hholds : Holds op stack) (output : List Rpn) (stray : Bool) :
    accept ⟨output, ops.map .operator ++ stack, stray⟩ (.operator op)
      = ⟨sent ops output, .operator op :: stack, stray⟩ := by
  simp only [accept, release_waiting hyields, release_of_holds hholds]

/-- A stack without an open bracket is a stack of operators. -/
theorem eq_map_of_not_mem {stack : List Waiting} (h : Waiting.bracket ∉ stack) :
    ∃ ops : List Operator, stack = ops.map .operator := by
  induction stack with
  | nil => exact ⟨[], rfl⟩
  | cons top rest ih =>
      rcases ih (fun hc => h (List.mem_cons_of_mem top hc)) with ⟨ops, hops⟩
      cases top with
      | bracket => exact absurd List.mem_cons_self h
      | operator op => exact ⟨op :: ops, by rw [hops, List.map_cons]⟩

theorem unclosed_eq_false_iff (y : Yard) : y.unclosed = false ↔ Waiting.bracket ∉ y.stack := by
  rw [unclosed, ← Bool.not_eq_true, List.contains_iff_mem]

/-- The same yard with `before` at the front of its output, which is kept latest
    step first. -/
def prefixed (before : List Rpn) (y : Yard) : Yard := { y with output := y.output ++ before }

theorem release_output (op : Operator) (stack : List Waiting) (output before : List Rpn) :
    release op stack (output ++ before)
      = ((release op stack output).1 ++ before, (release op stack output).2) := by
  induction stack generalizing output with
  | nil => rfl
  | cons top rest ih =>
      cases top with
      | bracket => rfl
      | operator head =>
          by_cases h : op.yieldsTo head = true
          · simp only [release, if_pos h]
            exact ih (.apply head :: output)
          · simp only [release, if_neg h]

theorem close_output (stack : List Waiting) (output before : List Rpn) (stray : Bool) :
    close stack (output ++ before) stray = (close stack output stray).prefixed before := by
  induction stack generalizing output with
  | nil => rfl
  | cons top rest ih =>
      cases top with
      | bracket => rfl
      | operator head => exact ih (.apply head :: output)

theorem drain_output (stack : List Waiting) (output before : List Rpn) :
    drain stack (output ++ before) = drain stack output ++ before := by
  induction stack generalizing output with
  | nil => rfl
  | cons top rest ih =>
      cases top with
      | bracket => exact ih output
      | operator op => exact ih (.apply op :: output)

theorem accept_prefixed (before : List Rpn) (y : Yard) (t : Token) :
    (y.prefixed before).accept t = (y.accept t).prefixed before := by
  cases t with
  | number v => rfl
  | «variable» name => rfl
  | operator op => simp only [accept, prefixed, release_output]
  | opening => rfl
  | closing => exact close_output y.stack y.output before y.stray

/-- A yard never looks at its output: what stands there already stays in front. -/
theorem foldl_accept_output (before : List Rpn) (tokens : List Token) (y : Yard) :
    tokens.foldl accept (y.prefixed before) = (tokens.foldl accept y).prefixed before := by
  induction tokens generalizing y with
  | nil => rfl
  | cons t rest ih => rw [List.foldl_cons, List.foldl_cons, accept_prefixed, ih]

theorem stray_close {stack : List Waiting} {output : List Rpn} {stray : Bool}
    (h : (close stack output stray).stray = false) : stray = false := by
  induction stack generalizing output with
  | nil => exact absurd h (by simp only [close, Bool.true_eq_false, not_false_eq_true])
  | cons top rest ih =>
      cases top with
      | bracket => exact h
      | operator head => exact ih h

/-- A closing bracket that has matched nothing is not forgotten: where there is
    none in the end, there was none before. -/
theorem stray_accept {y : Yard} {t : Token} (h : (y.accept t).stray = false) :
    y.stray = false := by
  cases t with
  | closing => exact stray_close h
  | number | «variable» | operator | opening => exact h

theorem stray_foldl_accept {y : Yard} {tokens : List Token}
    (h : (tokens.foldl accept y).stray = false) : y.stray = false := by
  induction tokens generalizing y with
  | nil => exact h
  | cons t rest ih => exact stray_accept (ih h)

/-- The same yard with an open bracket and a stack below its own. -/
def above (stack : List Waiting) (stray : Bool) (y : Yard) : Yard :=
  ⟨y.output, y.stack ++ .bracket :: stack, stray⟩

theorem release_above (op : Operator) (stack below : List Waiting) (output : List Rpn) :
    release op (stack ++ .bracket :: below) output
      = ((release op stack output).1, (release op stack output).2 ++ .bracket :: below) := by
  induction stack generalizing output with
  | nil => rfl
  | cons top rest ih =>
      cases top with
      | bracket => rfl
      | operator head =>
          by_cases h : op.yieldsTo head = true
          · simp only [List.cons_append, release, if_pos h]
            exact ih (.apply head :: output)
          · simp only [List.cons_append, release, if_neg h]

theorem close_above (stack below : List Waiting) (output : List Rpn) (stray : Bool)
    (h : (close stack output false).stray = false) :
    close (stack ++ .bracket :: below) output stray
      = (close stack output false).above below stray := by
  induction stack generalizing output with
  | nil => exact absurd h (by simp only [close, Bool.true_eq_false, not_false_eq_true])
  | cons top rest ih =>
      cases top with
      | bracket => rfl
      | operator head => exact ih (.apply head :: output) h

theorem accept_above {y : Yard} (t : Token) (below : List Waiting) (stray : Bool)
    (hy : y.stray = false) (h : (y.accept t).stray = false) :
    (y.above below stray).accept t = (y.accept t).above below stray := by
  cases t with
  | number v => rfl
  | «variable» name => rfl
  | operator op =>
      simp only [accept, above, release_above, List.cons_append]
  | opening => rfl
  | closing =>
      simp only [accept, hy] at h ⊢
      exact close_above y.stack below y.output stray h

/-- Tokens whose brackets match do not look below an open bracket. -/
theorem foldl_accept_enclosed {y : Yard} (tokens : List Token) (below : List Waiting)
    (stray : Bool) (h : (tokens.foldl accept y).stray = false) :
    tokens.foldl accept (y.above below stray) = (tokens.foldl accept y).above below stray := by
  induction tokens generalizing y with
  | nil => rfl
  | cons t rest ih =>
      have hnext : (y.accept t).stray = false := stray_foldl_accept h
      rw [List.foldl_cons, List.foldl_cons,
        accept_above t below stray (stray_accept hnext) hnext, ih h]

end Yard

/-- Tokens have a program and nothing is wrong with their brackets exactly when only
    operators wait in the end. -/
theorem Rpn.ofTokens_eq_some_iff {tokens : List Token} {program : List Rpn} :
    Rpn.ofTokens tokens = (some program, []) ↔
      ∃ (ops : List Operator) (output : List Rpn),
        tokens.foldl Yard.accept {} = ⟨output, ops.map .operator, false⟩ ∧
          program = (Yard.sent ops output).reverse := by
  constructor
  · intro h
    simp only [Rpn.ofTokens] at h
    generalize tokens.foldl Yard.accept {} = y at h ⊢
    rcases y with ⟨output, stack, stray⟩
    cases hunclosed : Yard.unclosed ⟨output, stack, stray⟩ with
    | true => simp only [hunclosed, if_true, Prod.mk.injEq, reduceCtorEq, false_and] at h
    | false =>
        cases stray with
        | true =>
            simp only [hunclosed, if_true, Bool.false_eq_true, if_false, Prod.mk.injEq,
              reduceCtorEq, and_false] at h
        | false =>
            rcases Yard.eq_map_of_not_mem ((Yard.unclosed_eq_false_iff _).mp hunclosed) with
              ⟨ops, hops⟩
            simp only at hops
            subst hops
            have hdrain := Yard.drain_waiting ops [] output
            rw [List.append_nil] at hdrain
            simp only [hunclosed, Bool.false_eq_true, if_false, hdrain, Prod.mk.injEq,
              Option.some.injEq, and_true] at h
            exact ⟨ops, output, rfl, h.symm⟩
  · rintro ⟨ops, output, hfold, rfl⟩
    have hclosed : Yard.unclosed ⟨output, ops.map .operator, false⟩ = false := by
      rw [Yard.unclosed_eq_false_iff]
      simp only [List.mem_map, reduceCtorEq, and_false, exists_false, not_false_eq_true]
    have hdrain := Yard.drain_waiting ops [] output
    rw [List.append_nil] at hdrain
    simp only [Rpn.ofTokens, hfold, hclosed, hdrain, Bool.false_eq_true, if_false]
    rfl

/-- Tokens with a pair of brackets around them. -/
def bracketed (tokens : List Token) : List Token := .opening :: (tokens ++ [.closing])

namespace Yard

/-- Tokens in brackets are one operand: their program goes to the output as a whole,
    and nothing else changes. -/
theorem foldl_accept_bracketed {inner : List Token} {program : List Rpn}
    (h : Rpn.ofTokens inner = (some program, [])) (y : Yard) :
    (bracketed inner).foldl accept y = { y with output := program.reverse ++ y.output } := by
  rcases Rpn.ofTokens_eq_some_iff.mp h with ⟨ops, output, hfold, rfl⟩
  -- The inner tokens see neither the output nor the stack that are there already.
  have hframe : inner.foldl accept (y.accept .opening)
      = ⟨output ++ y.output, ops.map .operator ++ .bracket :: y.stack, y.stray⟩ := by
    have henclosed := foldl_accept_enclosed (y := ({} : Yard).prefixed y.output) inner y.stack
      y.stray (by rw [foldl_accept_output, hfold]; rfl)
    rw [foldl_accept_output, hfold] at henclosed
    exact henclosed
  rw [bracketed, List.foldl_cons, List.foldl_append, hframe]
  simp only [List.foldl_cons, List.foldl_nil, accept, close_waiting, close, sent,
    List.reverse_reverse, List.append_assoc]

end Yard

end TurtleGraphics
