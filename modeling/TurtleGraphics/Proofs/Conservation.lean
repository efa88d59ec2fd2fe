import TurtleGraphics.Proofs.Matching
import TurtleGraphics.Proofs.Yard

/-!
# Nothing Is Lost in the Yard

The yard moves operators about, through a stack on which brackets lie between them. All
that a token can do to it is listed once, as `Yard.Step`: operands go to the output, and
an operator, a closing bracket or nothing but the end of the tokens sends some operators
from the top of the stack there. From this list it is seen step by step what is kept,
whatever the tokens are and whether or not their brackets match.

* Operands are in the output as they came, in the same order.
* Operators are in the output or on the stack, each as often as it came.
* The brackets on the stack are counted as `Brackets.level` counts them, so brackets that
  stay there are those without a partner.
* A closing bracket is stray exactly where `Brackets.sinks` sees one.

## Main definitions

* `Token.operand?`, `Token.operator?`, `Rpn.operand?`, `Rpn.operator?`: Operands and
  operators of tokens and programs.
* `Token.brackets`: The brackets among the tokens.
* `Yard.Step`: What a token can do.
* `Yard.held`: The operators in the output and on the stack.

## Theorems

* `Yard.step_accept`: Tokens do one of the things listed.
* `Yard.operands_foldl_accept`: Operands go to the output in their order.
* `Yard.perm_held_foldl_accept`: Operators are kept.
* `Yard.count_bracket_foldl_accept`: How many brackets wait.
* `Yard.stray_foldl_accept_iff`: When a closing bracket is stray.
* `ofTokens_conserves`: Programs hold what the tokens hold, and what is reported.
-/

namespace TurtleGraphics

/-- The step that an operand is. -/
def Token.operand? : Token → Option Rpn
  | .number v => some (.number v)
  | .variable name => some (.variable name)
  | _ => none

def Token.operator? : Token → Option Operator
  | .operator op => some op
  | _ => none

/-- The step itself, if it is an operand. -/
def Rpn.operand? : Rpn → Option Rpn
  | .apply _ => none
  | step => some step

def Rpn.operator? : Rpn → Option Operator
  | .apply op => some op
  | _ => none

def Waiting.operator? : Waiting → Option Operator
  | .operator op => some op
  | .bracket => none

/-- The brackets among the tokens. -/
def Token.brackets : Brackets Token := ⟨.opening, .closing, by decide⟩

namespace Yard

/-- What a token can do to a yard. -/
inductive Step (y : Yard) : Token → Yard → Prop where
  /-- An operand goes to the output. -/
  | operand {t : Token} {step : Rpn} (h : t.operand? = some step) :
      Step y t { y with output := step :: y.output }
  /-- An operator sends some of the operators on top to the output and waits itself. -/
  | operator (op : Operator) {ops : List Operator} {rest : List Waiting}
      (h : y.stack = ops.map .operator ++ rest) :
      Step y (.operator op) ⟨sent ops y.output, .operator op :: rest, y.stray⟩
  | opening : Step y .opening { y with stack := .bracket :: y.stack }
  /-- A closing bracket sends all operators above the latest open bracket. -/
  | closing {ops : List Operator} {rest : List Waiting}
      (h : y.stack = ops.map .operator ++ .bracket :: rest) :
      Step y .closing ⟨sent ops y.output, rest, y.stray⟩
  /-- Without an open bracket it sends all operators there are. -/
  | stray {ops : List Operator} (h : y.stack = ops.map .operator) :
      Step y .closing ⟨sent ops y.output, [], true⟩

theorem exists_release (op : Operator) (stack : List Waiting) (output : List Rpn) :
    ∃ (ops : List Operator) (rest : List Waiting),
      stack = ops.map .operator ++ rest ∧ release op stack output = (sent ops output, rest) := by
  fun_induction release op stack output with
  | case1 head stack output hyields ih =>
      rcases ih with ⟨ops, rest, rfl, hrelease⟩
      exact ⟨head :: ops, rest, rfl, by rw [hrelease, sent_cons]⟩
  | case2 head stack output hyields => exact ⟨[], _, rfl, rfl⟩
  | case3 stack output hnone => exact ⟨[], stack, rfl, rfl⟩

theorem exists_close (stack : List Waiting) (output : List Rpn) (stray : Bool) :
    (∃ (ops : List Operator) (rest : List Waiting),
        stack = ops.map .operator ++ .bracket :: rest ∧
          close stack output stray = ⟨sent ops output, rest, stray⟩) ∨
      ∃ ops : List Operator, stack = ops.map .operator ∧
        close stack output stray = ⟨sent ops output, [], true⟩ := by
  fun_induction close stack output stray with
  | case1 head stack output stray ih =>
      rcases ih with ⟨ops, rest, rfl, hclose⟩ | ⟨ops, rfl, hclose⟩
      · exact .inl ⟨head :: ops, rest, rfl, by rw [hclose, sent_cons]⟩
      · exact .inr ⟨head :: ops, rfl, by rw [hclose, sent_cons]⟩
  | case2 stack output stray => exact .inl ⟨[], stack, rfl, rfl⟩
  | case3 output => exact .inr ⟨[], rfl, rfl⟩

theorem step_accept (y : Yard) (t : Token) : y.Step t (y.accept t) := by
  cases t with
  | number v => exact .operand rfl
  | «variable» name => exact .operand rfl
  | operator op =>
      rcases exists_release op y.stack y.output with ⟨ops, rest, hstack, hrelease⟩
      simp only [accept, hrelease]
      exact .operator op hstack
  | opening => exact .opening
  | closing =>
      rw [accept]
      rcases exists_close y.stack y.output y.stray with
        ⟨ops, rest, hstack, hclose⟩ | ⟨ops, hstack, hclose⟩
      · rw [hclose]
        exact .closing hstack
      · rw [hclose]
        exact .stray hstack

theorem filterMap_operand?_sent (ops : List Operator) (output : List Rpn) :
    (sent ops output).filterMap Rpn.operand? = output.filterMap Rpn.operand? := by
  have hnone : ((ops.map Rpn.apply).reverse).filterMap Rpn.operand? = [] := by
    refine List.filterMap_eq_nil_iff.mpr fun step hstep => ?_
    rcases List.mem_map.mp (List.mem_reverse.mp hstep) with ⟨op, _, rfl⟩
    rfl
  rw [sent, List.filterMap_append, hnone, List.nil_append]

theorem filterMap_operator?_sent (ops : List Operator) (output : List Rpn) :
    (sent ops output).filterMap Rpn.operator? = ops.reverse ++ output.filterMap Rpn.operator? := by
  have hops : (ops.reverse.map Rpn.apply).filterMap Rpn.operator? = ops.reverse := by
    rw [List.filterMap_map]
    exact List.filterMap_some
  rw [sent, List.filterMap_append, ← List.map_reverse, hops]

theorem filterMap_operator?_waiting (ops : List Operator) :
    (ops.map Waiting.operator).filterMap Waiting.operator? = ops := by
  rw [List.filterMap_map]
  exact List.filterMap_some

theorem count_bracket_waiting (ops : List Operator) :
    (ops.map Waiting.operator).count .bracket = 0 := by
  rw [List.count_eq_zero, List.mem_map]
  rintro ⟨op, _, hop⟩
  cases hop

/-- Operands go to the output as they are. -/
theorem operands_accept (y : Yard) (t : Token) :
    (y.accept t).output.filterMap Rpn.operand?
      = t.operand?.toList ++ y.output.filterMap Rpn.operand? := by
  have hstep := step_accept y t
  generalize y.accept t = next at hstep ⊢
  cases hstep with
  | operand h =>
      rename_i step
      have hstep : step.operand? = some step := by
        cases t <;> cases h <;> rfl
      rw [h, List.filterMap_cons_some hstep]
      rfl
  | operator op h => exact filterMap_operand?_sent _ _
  | opening => rfl
  | closing h => exact filterMap_operand?_sent _ _
  | stray h => exact filterMap_operand?_sent _ _

/-- The operands of the output are those of the tokens, latest first. -/
theorem operands_foldl_accept (tokens : List Token) (y : Yard) :
    (tokens.foldl accept y).output.filterMap Rpn.operand?
      = (tokens.filterMap Token.operand?).reverse ++ y.output.filterMap Rpn.operand? := by
  induction tokens generalizing y with
  | nil => rfl
  | cons t tokens ih =>
      rw [List.foldl_cons, ih, operands_accept]
      cases ht : t.operand? with
      | none => rw [List.filterMap_cons_none ht, Option.toList_none, List.nil_append]
      | some step =>
          rw [List.filterMap_cons_some ht, List.reverse_cons, List.append_assoc]
          rfl

/-- The operators in the output and on the stack. -/
def held (y : Yard) : List Operator :=
  y.output.filterMap Rpn.operator? ++ y.stack.filterMap Waiting.operator?

/-- Sending operators from the stack to the output keeps them. -/
theorem perm_held_sent (ops : List Operator) (output : List Rpn) (rest : List Waiting)
    (stray stray' : Bool) :
    (held ⟨sent ops output, rest, stray⟩).Perm
      (held ⟨output, ops.map .operator ++ rest, stray'⟩) := by
  simp only [held, filterMap_operator?_sent, List.filterMap_append, filterMap_operator?_waiting]
  -- The latest operator is sent first, so the order is turned round on the way.
  rw [← List.append_assoc]
  refine List.Perm.append_right _ ?_
  exact List.perm_append_comm.trans ((List.reverse_perm ops).append_left _)

/-- Every operator that comes is held, and none is held twice. -/
theorem perm_held_accept (y : Yard) (t : Token) :
    (y.accept t).held.Perm (t.operator?.toList ++ y.held) := by
  have hstep := step_accept y t
  generalize y.accept t = next at hstep ⊢
  cases hstep with
  | operand h =>
      rename_i step
      cases t <;> cases h <;> exact List.Perm.refl _
  | operator op h =>
      rename_i ops rest
      have hsent := perm_held_sent ops y.output rest y.stray y.stray
      rw [← h] at hsent
      refine List.Perm.trans ?_ (hsent.cons op)
      exact List.perm_middle
  | opening => exact List.Perm.refl _
  | closing h =>
      rename_i ops rest
      have hsent := perm_held_sent ops y.output (.bracket :: rest) y.stray y.stray
      rw [← h] at hsent
      exact hsent
  | stray h =>
      rename_i ops
      have hsent := perm_held_sent ops y.output [] true y.stray
      rw [List.append_nil, ← h] at hsent
      exact hsent

theorem perm_held_foldl_accept (tokens : List Token) (y : Yard) :
    (tokens.foldl accept y).held.Perm (tokens.filterMap Token.operator? ++ y.held) := by
  induction tokens generalizing y with
  | nil => exact List.Perm.refl _
  | cons t tokens ih =>
      have hstep := (ih (y.accept t)).trans ((perm_held_accept y t).append_left _)
      rw [List.foldl_cons]
      cases ht : t.operator? with
      | none =>
          rw [List.filterMap_cons_none ht]
          rwa [ht] at hstep
      | some op =>
          rw [List.filterMap_cons_some ht]
          rw [ht] at hstep
          exact hstep.trans List.perm_middle

/-- The brackets that wait are counted as brackets of the tokens are. -/
theorem count_bracket_accept (y : Yard) (t : Token) :
    (y.accept t).stack.count .bracket = Token.brackets.level (y.stack.count .bracket) t := by
  have hstep := step_accept y t
  generalize y.accept t = next at hstep ⊢
  cases hstep with
  | operand h => cases t <;> cases h <;> rfl
  | operator op h =>
      rw [h, List.count_append, count_bracket_waiting, Nat.zero_add]
      exact List.count_cons_of_ne (fun hop => by cases hop)
  | opening => exact List.count_cons_self
  | closing h =>
      rw [h, List.count_append, count_bracket_waiting, List.count_cons_self, Nat.zero_add]
      rfl
  | stray h =>
      rw [h, count_bracket_waiting]
      rfl

theorem count_bracket_foldl_accept (tokens : List Token) (y : Yard) :
    (tokens.foldl accept y).stack.count .bracket
      = tokens.foldl Token.brackets.level (y.stack.count .bracket) := by
  induction tokens generalizing y with
  | nil => rfl
  | cons t tokens ih => rw [List.foldl_cons, List.foldl_cons, ih, count_bracket_accept]

theorem stray_accept_eq (y : Yard) (t : Token) :
    (y.accept t).stray
      = (y.stray || decide (t = Token.brackets.closing ∧ y.stack.count .bracket = 0)) := by
  have hstep := step_accept y t
  generalize y.accept t = next at hstep ⊢
  cases hstep with
  | operand h => cases t <;> cases h <;> exact (Bool.or_false _).symm
  | operator op h => exact (Bool.or_false _).symm
  | opening => exact (Bool.or_false _).symm
  | closing h =>
      rw [h, List.count_append, List.count_cons_self]
      simp
  | stray h =>
      rw [h, count_bracket_waiting]
      exact (Bool.or_true _).symm

/-- A closing bracket is stray exactly where it is met with no bracket open. -/
theorem stray_foldl_accept_eq (tokens : List Token) (y : Yard) :
    (tokens.foldl accept y).stray
      = (y.stray || Token.brackets.sinks (y.stack.count .bracket) tokens) := by
  induction tokens generalizing y with
  | nil => exact (Bool.or_false _).symm
  | cons t tokens ih =>
      rw [List.foldl_cons, ih, stray_accept_eq, count_bracket_accept, Brackets.sinks,
        Bool.or_assoc]

theorem drain_eq_sent (stack : List Waiting) (output : List Rpn) :
    drain stack output = sent (stack.filterMap Waiting.operator?) output := by
  fun_induction drain stack output with
  | case1 op stack output ih =>
      have hop : Waiting.operator? (.operator op) = some op := rfl
      rw [ih, List.filterMap_cons_some hop, sent_cons]
  | case2 stack output ih =>
      rw [ih, List.filterMap_cons_none rfl]
  | case3 output => rfl

/-- A bracket stays open in the yard exactly if one of the tokens has no partner. -/
theorem unclosed_foldl_accept_iff (tokens : List Token) :
    (tokens.foldl accept {}).unclosed = true ↔ Token.brackets.Unclosed tokens := by
  rw [unclosed, List.contains_iff_mem, ← List.count_pos_iff, count_bracket_foldl_accept,
    Brackets.unclosed_iff]
  rfl

theorem stray_foldl_accept_iff (tokens : List Token) :
    (tokens.foldl accept {}).stray = true ↔ Token.brackets.Unopened tokens := by
  rw [stray_foldl_accept_eq, Brackets.unopened_iff]
  rfl

end Yard

/-- Programs hold what the tokens hold. While the tokens are read, the operands so far are
    in the output in their order, and every operator so far is once in the output or on the
    stack. If an opening bracket has no partner there is no program. Otherwise there is one,
    with the same operands in the same order and with every operator once. A closing bracket
    without a partner is reported once, however many there are, and so is an opening one, and
    nothing else is reported. -/
theorem ofTokens_conserves (tokens : List Token) :
    let y := tokens.foldl Yard.accept {}
    (y.output.reverse.filterMap Rpn.operand? = tokens.filterMap Token.operand? ∧
        (y.output.filterMap Rpn.operator? ++ y.stack.filterMap Waiting.operator?).Perm
          (tokens.filterMap Token.operator?)) ∧
      ((Rpn.ofTokens tokens).1 = none ↔ Token.brackets.Unclosed tokens) ∧
      (∀ program, (Rpn.ofTokens tokens).1 = some program →
        program.filterMap Rpn.operand? = tokens.filterMap Token.operand? ∧
          (program.filterMap Rpn.operator?).Perm (tokens.filterMap Token.operator?)) ∧
      (Rpn.ofTokens tokens).2
        = (if Token.brackets.Unopened tokens then [.unmatchedClosing] else []) ++
            (if Token.brackets.Unclosed tokens then [.unmatchedOpening] else []) := by
  intro y
  have hoperands : y.output.reverse.filterMap Rpn.operand? = tokens.filterMap Token.operand? := by
    rw [List.filterMap_reverse, Yard.operands_foldl_accept, List.reverse_append,
      List.reverse_reverse]
    rfl
  have hheld : y.held.Perm (tokens.filterMap Token.operator?) := by
    have hperm := Yard.perm_held_foldl_accept tokens {}
    rwa [show Yard.held {} = [] from rfl, List.append_nil] at hperm
  have hunclosed := Yard.unclosed_foldl_accept_iff tokens
  have hstray := Yard.stray_foldl_accept_iff tokens
  refine ⟨⟨hoperands, hheld⟩, ?_, fun program hprogram => ?_, ?_⟩
  · rw [← hunclosed]
    cases h : y.unclosed with
    | true => simp only [Rpn.ofTokens, y, h, if_true]
    | false => simp only [Rpn.ofTokens, y, h, Bool.false_eq_true, if_false, reduceCtorEq]
  · -- No bracket is open, so the end of the tokens sends exactly what is still held.
    have hdrained : program = (Yard.drain y.stack y.output).reverse := by
      cases h : y.unclosed with
      | true => simp only [Rpn.ofTokens, y, h, if_true, reduceCtorEq] at hprogram
      | false =>
          simp only [Rpn.ofTokens, y, h, Bool.false_eq_true, if_false, Option.some.injEq]
            at hprogram
          exact hprogram.symm
    rw [hdrained, Yard.drain_eq_sent, List.filterMap_reverse, List.filterMap_reverse,
      Yard.filterMap_operand?_sent, Yard.filterMap_operator?_sent, ← List.filterMap_reverse]
    refine ⟨hoperands, (List.reverse_perm _).trans (List.Perm.trans ?_ hheld)⟩
    exact ((List.reverse_perm _).append_right _).trans List.perm_append_comm
  · simp only [← hunclosed, ← hstray, Rpn.ofTokens]
    cases y.stray <;> cases y.unclosed <;> rfl

theorem ofTokens_conserves_stray :
    let tokens : List Token :=
      [.variable "A", .operator (.binary .add), .variable "B", .closing,
        .operator (.binary .multiply), .variable "C", .closing]
    (Rpn.ofTokens tokens).2 = [.unmatchedClosing] ∧
      ∃ program, (Rpn.ofTokens tokens).1 = some program ∧
        program.filterMap Rpn.operand? = [.variable "A", .variable "B", .variable "C"] ∧
        (program.filterMap Rpn.operator?).Perm [.binary .add, .binary .multiply] := by
  intro tokens
  rcases ofTokens_conserves tokens with ⟨_, _, hprogram, hfaults⟩
  exact ⟨hfaults, _, rfl, hprogram _ rfl⟩

end TurtleGraphics
