import Mathlib.Data.List.Rotate
import TurtleGraphics.Proofs.Conservation
import TurtleGraphics.Proofs.Prefixes

/-!
# The Bottom of the Stack

Two yards can read the same tokens while one of them has something at the bottom of its
stack that the other has not. It is out of reach as long as anything else waits above it,
so the two do the same, and then it comes up.

If it is an open bracket, it comes up when a closing bracket finds no other partner. In
the other yard that bracket is stray. Both have sent all operators by then, and from there
on they differ only in what they remember (`silent_foldl_accept_grounded`).

If it is an operator, it acts when all that waits above it has acted. In the program it then
stands behind steps that have nothing to do with it (`Beneath.result`), and not in front of
them, where it would be if it had acted at the start (`result_ne_of_waits`).

## Main definitions

* `Yard.silent`: A yard without its memory of stray brackets.
* `Yard.grounded`: A yard with an open bracket at the bottom.
* `Yard.Beneath`: Two yards, of which the second has one more operator, at the bottom.

## Theorems

* `Yard.silent_foldl_accept`: Stray brackets are only remembered.
* `Yard.silent_foldl_accept_grounded`: How brackets at the bottom come up.
* `Yard.result_foldl_accept_opening`: Brackets before all tokens.
* `Yard.release_beneath`: When operators at the bottom come up.
* `Yard.Beneath.foldl_accept`: How they do so along a list of tokens.
* `Yard.Beneath.result`: Where they are in the program.
* `Yard.result_ne_of_waits`: Whether an operator waits can be seen.
-/

namespace TurtleGraphics

namespace Yard

/-- The same yard without its memory of stray brackets. -/
def silent (y : Yard) : Yard := { y with stray := false }

theorem result_silent (y : Yard) : y.silent.result = y.result := rfl

theorem silent_close (stack : List Waiting) (output : List Rpn) (stray : Bool) :
    (close stack output stray).silent = (close stack output false).silent := by
  fun_induction close stack output stray with
  | case1 head stack output stray ih => exact ih
  | case2 stack output stray => rfl
  | case3 output => rfl

theorem silent_accept (y : Yard) (t : Token) :
    (y.accept t).silent = (y.silent.accept t).silent := by
  cases t with
  | number | «variable» | operator | opening => rfl
  | closing => exact silent_close y.stack y.output y.stray

/-- Stray brackets are remembered, but nothing else depends on that. -/
theorem silent_foldl_accept (tokens : List Token) (y : Yard) :
    (tokens.foldl accept y).silent = (tokens.foldl accept y.silent).silent := by
  induction tokens generalizing y with
  | nil => rfl
  | cons t tokens ih => rw [List.foldl_cons, List.foldl_cons, ih, silent_accept, ← ih]

theorem result_foldl_accept_of_silent {y z : Yard} (h : y.silent = z.silent)
    (tokens : List Token) :
    (tokens.foldl accept y).result = (tokens.foldl accept z).result := by
  rw [← result_silent, silent_foldl_accept, h, ← silent_foldl_accept, result_silent]

theorem close_map (ops : List Operator) (output : List Rpn) (stray : Bool) :
    close (ops.map .operator) output stray = ⟨sent ops output, [], true⟩ := by
  have hclose := close_waiting ops [] output stray
  rwa [List.append_nil] at hclose

theorem result_map (ops : List Operator) (output : List Rpn) (stray : Bool) :
    result ⟨output, ops.map .operator, stray⟩ = some (sent ops output).reverse := by
  have hclosed : unclosed ⟨output, ops.map .operator, stray⟩ = false := by
    rw [unclosed_eq_false_iff, ← List.count_eq_zero, count_bracket_waiting]
  have hdrain := drain_waiting ops [] output
  rw [List.append_nil] at hdrain
  rw [result, hclosed, hdrain]
  rfl

/-- A yard with a program has only operators left. -/
theorem exists_map_of_result {y : Yard} {program : List Rpn} (h : y.result = some program) :
    ∃ ops : List Operator, y.stack = ops.map .operator ∧
      program = (sent ops y.output).reverse := by
  rcases y with ⟨output, stack, stray⟩
  cases hopen : unclosed ⟨output, stack, stray⟩ with
  | true =>
      rw [result, if_pos hopen] at h
      cases h
  | false =>
      rcases eq_map_of_not_mem ((unclosed_eq_false_iff _).mp hopen) with ⟨ops, hops⟩
      refine ⟨ops, hops, ?_⟩
      rw [show stack = ops.map .operator from hops, result_map] at h
      exact (Option.some.inj h).symm

/-- The same yard with an open bracket at the bottom. A stray bracket would have closed it. -/
def grounded (y : Yard) : Yard := if y.stray then y.silent else y.above [] false

theorem silent_accept_grounded (y : Yard) (t : Token) :
    (y.grounded.accept t).silent = (y.accept t).grounded := by
  cases hy : y.stray with
  | true =>
      have hnext : (y.accept t).stray = true := by rw [stray_accept_eq, hy, Bool.true_or]
      rw [grounded, if_pos hy, grounded, if_pos hnext, ← silent_accept]
  | false =>
      have hground : y.grounded = y.above [] false :=
        if_neg (by rw [hy]; exact Bool.false_ne_true)
      rw [hground]
      cases hnext : (y.accept t).stray with
      | false =>
          rw [accept_above t [] false hy hnext, grounded, hnext]
          rfl
      | true =>
          -- The first stray bracket is the partner of the bracket at the bottom.
          rw [grounded, if_pos hnext]
          rw [stray_accept_eq, hy, Bool.false_or, decide_eq_true_eq] at hnext
          rcases hnext with ⟨rfl, hcount⟩
          rcases eq_map_of_not_mem (List.count_eq_zero.mp hcount) with ⟨ops, hops⟩
          change (close (y.stack ++ [.bracket]) y.output false).silent
            = (close y.stack y.output y.stray).silent
          rw [hops, close_map, close_waiting]
          rfl

theorem silent_foldl_accept_grounded (tokens : List Token) (y : Yard) :
    (tokens.foldl accept y.grounded).silent = (tokens.foldl accept y).grounded := by
  induction tokens generalizing y with
  | nil =>
      rw [List.foldl_nil, List.foldl_nil, grounded]
      split <;> rfl
  | cons t tokens ih =>
      rw [List.foldl_cons, List.foldl_cons, silent_foldl_accept, silent_accept_grounded, ih]

/-- If a closing bracket is stray, an opening one before all tokens changes nothing else. -/
theorem result_foldl_accept_opening {tokens : List Token}
    (h : (tokens.foldl accept {}).stray = true) :
    ((Token.opening :: tokens).foldl accept {}).result = (tokens.foldl accept {}).result := by
  have hground : ({} : Yard).accept .opening = ({} : Yard).grounded := rfl
  rw [List.foldl_cons, hground, ← result_silent, silent_foldl_accept_grounded, grounded, if_pos h,
    result_silent]

/-- Sending all operators that wait sends every operator that is held. -/
theorem apply_mem_sent {y : Yard} {op : Operator} (h : op ∈ y.held) {ops : List Operator}
    (hops : y.stack = ops.map .operator) : .apply op ∈ sent ops y.output := by
  rw [held, hops, filterMap_operator?_waiting, List.mem_append] at h
  rw [sent, List.mem_append, List.mem_reverse, List.mem_map]
  rcases h with houtput | hwaits
  · rcases List.mem_filterMap.mp houtput with ⟨step, hstep, hop⟩
    cases step with
    | number | «variable» => cases hop
    | apply op' =>
        cases hop
        exact .inr hstep
  · exact .inl ⟨op, hwaits, rfl⟩

/-- The second yard is the first one with the operator `head` at the bottom. Or `head` has
    been sent to the output, but not before `op` was there. -/
inductive Beneath (head op : Operator) : Yard → Yard → Prop where
  | waits {y : Yard} (h : op ∈ y.held) :
      Beneath head op y { y with stack := y.stack ++ [.operator head] }
  | sent {y : Yard} {early : List Rpn} (h : .apply op ∈ early) :
      Beneath head op (y.prefixed early) (y.prefixed (.apply head :: early))

/-- An operator at the bottom leaves the stack only if no other stays there. -/
theorem release_beneath (op head : Operator) (stack : List Waiting) (output : List Rpn) :
    release op (stack ++ [.operator head]) output
        = ((release op stack output).1, (release op stack output).2 ++ [.operator head]) ∨
      (release op stack output).2 = [] ∧
        release op (stack ++ [.operator head]) output
          = (.apply head :: (release op stack output).1, []) := by
  fun_induction release op stack output with
  | case1 top stack output hyields ih =>
      rw [List.cons_append, release, if_pos hyields]
      exact ih
  | case2 top stack output hyields =>
      rw [List.cons_append, release, if_neg hyields]
      exact .inl rfl
  | case3 stack output hnone =>
      cases stack with
      | nil =>
          by_cases hyields : op.yieldsTo head = true
          · exact .inr ⟨rfl, by rw [List.nil_append, release, if_pos hyields]; rfl⟩
          · exact .inl (by rw [List.nil_append, release, if_neg hyields])
      | cons top stack =>
          cases top with
          | bracket => exact .inl rfl
          | operator top => exact absurd rfl (hnone top stack)

namespace Beneath

variable {head op : Operator} {y z : Yard}

theorem accept_operator (hheld : op ∈ y.held) (arriving : Operator) :
    Beneath head op (y.accept (.operator arriving))
      (Yard.accept { y with stack := y.stack ++ [.operator head] } (.operator arriving)) := by
  rcases release_beneath arriving head y.stack y.output with hrelease | ⟨hempty, hrelease⟩
  · have hnext : op ∈ (y.accept (.operator arriving)).held :=
      (perm_held_accept y _).mem_iff.mpr (List.mem_append_right _ hheld)
    simp only [Yard.accept, hrelease]
    exact .waits hnext
  · -- All that lay above has been sent, and so has `op`.
    rcases exists_release arriving y.stack y.output with ⟨ops, rest, hstack, hsent⟩
    rw [hsent] at hempty hrelease
    obtain rfl : rest = [] := hempty
    rw [List.append_nil] at hstack
    simp only [Yard.accept, hrelease, hsent]
    exact .sent (y := ⟨[], [.operator arriving], y.stray⟩) (apply_mem_sent hheld hstack)

theorem accept_closing (hheld : op ∈ y.held) :
    Beneath head op (y.accept .closing)
      (Yard.accept { y with stack := y.stack ++ [.operator head] } .closing) := by
  have hnext : op ∈ (y.accept .closing).held :=
    (perm_held_accept y _).mem_iff.mpr (List.mem_append_right _ hheld)
  rcases exists_close y.stack y.output y.stray with
    ⟨ops, rest, hstack, hclose⟩ | ⟨ops, hstack, hclose⟩
  · have hbeneath : close (y.stack ++ [.operator head]) y.output y.stray
        = ⟨Yard.sent ops y.output, rest ++ [.operator head], y.stray⟩ := by
      rw [hstack, List.append_assoc, close_waiting]
      rfl
    simp only [Yard.accept, hclose, hbeneath] at hnext ⊢
    exact .waits hnext
  · have hbeneath : close (y.stack ++ [.operator head]) y.output y.stray
        = ⟨.apply head :: Yard.sent ops y.output, [], true⟩ := by
      rw [hstack, close_waiting]
      rfl
    simp only [Yard.accept, hclose, hbeneath]
    exact .sent (y := ⟨[], [], true⟩) (apply_mem_sent hheld hstack)

theorem accept (h : Beneath head op y z) (t : Token) :
    Beneath head op (y.accept t) (z.accept t) := by
  cases h with
  | sent hearly =>
      rw [accept_prefixed, accept_prefixed]
      exact .sent hearly
  | waits hheld =>
      cases t with
      | number v => exact .waits (y := y.accept (.number v)) hheld
      | «variable» name => exact .waits (y := y.accept (.variable name)) hheld
      | operator arriving => exact accept_operator hheld arriving
      | opening => exact .waits (y := y.accept .opening) hheld
      | closing => exact accept_closing hheld

theorem foldl_accept (h : Beneath head op y z) (tokens : List Token) :
    Beneath head op (tokens.foldl Yard.accept y) (tokens.foldl Yard.accept z) := by
  induction tokens generalizing y z with
  | nil => exact h
  | cons t tokens ih => exact ih (h.accept t)

/-- Both programs have the same steps but for `head`, and `op` is among those before it. -/
theorem result (h : Beneath head op y z) {program : List Rpn} (hy : y.result = some program) :
    ∃ early late, program = early ++ late ∧ z.result = some (early ++ .apply head :: late) ∧
      .apply op ∈ early := by
  cases h with
  | @sent y early hearly =>
      rw [result_prefixed] at hy ⊢
      rcases Option.map_eq_some_iff.mp hy with ⟨late, hlate, rfl⟩
      refine ⟨early.reverse, late, rfl, ?_, List.mem_reverse.mpr hearly⟩
      rw [hlate, Option.map_some, List.reverse_cons, List.append_assoc]
      rfl
  | waits hheld =>
      rcases exists_map_of_result hy with ⟨ops, hops, rfl⟩
      refine ⟨_, [], (List.append_nil _).symm, ?_,
        List.mem_reverse.mpr (apply_mem_sent hheld hops)⟩
      have hstack : y.stack ++ [.operator head] = (ops ++ [head]).map .operator := by
        rw [hops, List.map_append, List.map_singleton]
      rw [hstack, result_map, sent_append]
      exact congrArg some List.reverse_cons

end Beneath

/-- An operator that another one keeps waiting does not act first. -/
theorem result_ne_of_waits {head op : Operator} (hwaits : op.yieldsTo head = false)
    (hne : op ≠ head) {tokens : List Token} {program : List Rpn}
    (h : ((Token.operator op :: tokens).foldl accept {}).result = some program) :
    ((Token.operator op :: tokens).foldl accept ⟨[], [.operator head], false⟩).result
      ≠ some (.apply head :: program) := by
  have hholds : Holds op [.operator head] := by
    intro top htop
    cases htop
    exact hwaits
  have hstart : Beneath head op (({} : Yard).accept (.operator op))
      (accept ⟨[], [.operator head], false⟩ (.operator op)) := by
    simp only [accept, release_of_holds hholds]
    exact .waits (y := ⟨[], [.operator op], false⟩) List.mem_cons_self
  rcases (hstart.foldl_accept tokens).result h with ⟨early, late, rfl, hresult, hmem⟩
  intro heq
  rw [List.foldl_cons, hresult, Option.some.injEq, List.append_cons, ← List.cons_append] at heq
  -- Moving the step from the front to the back changes nothing only if all steps are the same.
  have hrotate : (Rpn.apply head :: early).rotate 1 = .apply head :: early := by
    rw [List.rotate_cons_succ, List.rotate_zero]
    exact List.append_cancel_right heq
  have : Nonempty Rpn := ⟨.apply head⟩
  rcases List.rotate_one_eq_self_iff_eq_replicate.mp hrotate with ⟨step, hsame⟩
  have hall : ∀ other ∈ Rpn.apply head :: early, other = step := by
    rw [hsame]
    exact fun other hother => List.eq_of_mem_replicate hother
  have hop := (hall _ (List.mem_cons_of_mem _ hmem)).trans (hall _ List.mem_cons_self).symm
  exact hne (Rpn.apply.inj hop)

end Yard

end TurtleGraphics
