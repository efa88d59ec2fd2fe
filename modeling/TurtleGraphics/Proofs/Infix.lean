import TurtleGraphics.Expression.Evaluate
import TurtleGraphics.Proofs.Yard
import TurtleGraphics.Turtle.State

/-!
# Formulas and How They Are Written

A formula is the tree that an expression stands for. It has a value that is computed
along the tree, and it can be written in many ways, since brackets may be added
freely but left out only where the reader can tell. This module says which brackets
may be left out, and that the yard then reads the formula back.

What the yard sees of an operand is only how tightly it holds together. Its *level*
is the priority of its loosest operator outside of brackets, and an operand that is
one token or stands in brackets is tighter than any operator. Every rule about
brackets compares the level of an operand with the operator beside it: an operand
must not be torn apart by the operator on its left, which waits on the stack
(`Yard.Fits`), and what it leaves waiting must act before the operator on its right.

The invariant of the walk is `Yard.foldl_accept_written`. After an operand the stack
holds what it held before and on top of it operators of the operand, none looser
than its level, and sending these to the output completes the program of the
operand. Priority `13` is the only one at which both groupings meet, that of roots to
the right and that of powers to the left. So equal priorities are only allowed for
operators that `chain`: those that group to the right among all of their priority.

## Main definitions

* `Sign`, `Power`: The operators of formulas with one operand.
* `Formula`: Expressions as trees.
* `Formula.program`: The steps of a formula, operands first.
* `Formula.value`: The value of a formula, operands read from left to right.
* `Formula.result`: The value of a formula, if it is finite and after it has been
  brought into range.
* `Place`, `Formula.needsBrackets`: Where brackets cannot be left out.
* `Written`: The ways to write a formula.
* `Formula.level`: How tightly a formula holds together.
* `Yard.Fits`: An operand that waiting operators do not tear apart.
* `Computes`: A program that leaves a value on the stack.

## Theorems

* `Yard.foldl_accept_written`: What the yard makes of a written formula.
* `ofTokens_written`: The program of a written formula.
* `Computes.unary`, `Computes.binary`: Programs with an operator behind their operands.
* `computes_program`: Programs of formulas compute their values.
* `evaluate_program`: Programs of formulas evaluate to their results.
* `meaning_of_written`: Written formulas mean what they say.
-/

namespace TurtleGraphics

/-- The tightest operators, which stand before their operand. -/
inductive Sign where
  | not
  | plus
  | minus
  deriving DecidableEq, Repr

/-- The operators that stand after their operand. -/
inductive Power where
  | square
  | cube
  deriving DecidableEq, Repr

namespace Sign

def unary : Sign → Unary
  | .not => .not
  | .plus => .plus
  | .minus => .minus

def operator (s : Sign) : Operator := .unary s.unary

end Sign

namespace Power

def unary : Power → Unary
  | .square => .square
  | .cube => .cube

def operator (p : Power) : Operator := .unary p.unary

end Power

/-- An expression as a tree. -/
inductive Formula where
  | number (v : Scalar)
  | variable (name : String)
  | signed (op : Sign) (a : Formula)
  | powered (op : Power) (a : Formula)
  | binary (op : Binary) (a b : Formula)

namespace Formula

/-- The steps of a formula: every operator comes after its operands. -/
def program : Formula → List Rpn
  | .number v => [.number v]
  | .variable name => [.variable name]
  | .signed op a => a.program ++ [.apply op.operator]
  | .powered op a => a.program ++ [.apply op.operator]
  | .binary op a b => a.program ++ b.program ++ [.apply (.binary op)]

/-- The value of a variable. One that has none is reported and is zero. -/
def lookUp {σ : Type} [Variables σ] (name : String) : Eval σ Scalar := fun s =>
  match Variables.read name s with
  | (some v, s) => ⟨v, [], s⟩
  | (none, s) => ⟨0.0, [.undefinedVariable name], s⟩

/-- The value of a formula. The left operand is evaluated before the right one,
    which matters where reading a variable changes the context. -/
def value {σ : Type} [Variables σ] : Formula → Eval σ Scalar
  | .number v => Eval.pure v
  | .variable name => lookUp name
  | .signed op a => do return op.unary.apply (← a.value)
  | .powered op a => do return op.unary.apply (← a.value)
  | .binary op a b => do
    let x ← a.value
    let y ← b.value
    return op.apply x y

/-- The result of a formula: its value, if that is finite, brought into the permitted
    range. -/
def result {σ : Type} [Variables σ] (f : Formula) : Eval σ (Option Scalar) := fun s =>
  let r := f.value s
  if r.value.isFinite then
    ⟨some (clampResult r.value),
      r.faults ++ if maxResult < r.value || r.value < minResult then [.truncated] else [],
      r.context⟩
  else ⟨none, r.faults ++ [.notNumber], r.context⟩

end Formula

/-- Where an operand can stand. -/
inductive Place where
  | leftOf (op : Binary)
  | rightOf (op : Binary)
  | afterSign
  | beforePower
  deriving DecidableEq, Repr

/-- Whether brackets around a formula cannot be left out at a place. -/
def Formula.needsBrackets : Place → Formula → Bool
  | .leftOf op, .binary inner _ _ =>
    inner.priority < op.priority ||
      inner.priority == op.priority && (Operator.binary op).associativity == .right
  | .rightOf op, .binary inner _ _ =>
    inner.priority < op.priority ||
      inner.priority == op.priority && (Operator.binary op).associativity == .left
  | .afterSign, .binary _ _ _ | .afterSign, .powered _ _ => true
  | .beforePower, .binary _ _ _ => true
  | _, _ => false

/-- The tokens that write a formula, and whether brackets stand around all of them.
    Brackets can be added anywhere, but not left out where they are needed. -/
inductive Written : Formula → Bool → List Token → Prop where
  | number (v : Scalar) : Written (.number v) false [.number v]
  | variable (name : String) : Written (.variable name) false [.variable name]
  | signed (op : Sign) {a : Formula} {e : Bool} {w : List Token} (ha : Written a e w)
      (hb : a.needsBrackets .afterSign = true → e = true) :
      Written (.signed op a) false (.operator op.operator :: w)
  | powered (op : Power) {a : Formula} {e : Bool} {w : List Token} (ha : Written a e w)
      (hb : a.needsBrackets .beforePower = true → e = true) :
      Written (.powered op a) false (w ++ [.operator op.operator])
  | binary (op : Binary) {a b : Formula} {e e' : Bool} {w w' : List Token}
      (ha : Written a e w) (hleft : a.needsBrackets (.leftOf op) = true → e = true)
      (hb : Written b e' w') (hright : b.needsBrackets (.rightOf op) = true → e' = true) :
      Written (.binary op a b) false (w ++ .operator (.binary op) :: w')
  | enclosed {a : Formula} {e : Bool} {w : List Token} (ha : Written a e w) :
      Written a true (bracketed w)

/-- How tightly a formula holds together: the priority of its loosest operator
    outside of brackets, or more than any priority if there is none. -/
def Formula.level : Formula → Nat
  | .number _ | .variable _ => 15
  | .signed _ _ => 14
  | .powered _ _ => 13
  | .binary op _ _ => op.priority

/-- The level of a formula that may stand in brackets. -/
def writtenLevel (enclosed : Bool) (f : Formula) : Nat := if enclosed then 15 else f.level

@[simp]
theorem writtenLevel_true (f : Formula) : writtenLevel true f = 15 := rfl

@[simp]
theorem writtenLevel_false (f : Formula) : writtenLevel false f = f.level := rfl

namespace Operator

/-- Whether an operator groups to the right among all operators of its priority. -/
def chains : Operator → Bool
  | .unary .not | .unary .plus | .unary .minus | .binary .power => true
  | _ => false

end Operator

theorem Sign.priority_operator (s : Sign) : s.operator.priority = 14 := by
  cases s <;> rfl

theorem Sign.chains_operator (s : Sign) : s.operator.chains = true := by
  cases s <;> rfl

theorem Power.priority_operator (p : Power) : p.operator.priority = 13 := by
  cases p <;> rfl

theorem Binary.priority_le (op : Binary) : op.priority ≤ 12 := by
  cases op <;> decide

theorem Binary.chains_of_right {op : Binary}
    (h : (Operator.binary op).associativity = .right) :
    (Operator.binary op).chains = true := by
  revert h
  cases op <;> decide

theorem Binary.right_of_priority {op : Binary} (h : op.priority = 12) :
    (Operator.binary op).associativity = .right := by
  revert h
  cases op <;> decide

theorem Operator.priority_of_chains {op : Operator} (h : op.chains = true) :
    op.priority = 12 ∨ op.priority = 14 := by
  revert h
  rcases op with op | op <;> cases op <;> decide

theorem Operator.priority_le (op : Operator) : op.priority ≤ 14 := by
  rcases op with op | op <;> cases op <;> decide

namespace Yard

/-- An operand of some level is not torn apart by the operator that waits for it:
    that one is looser, or it is as tight and groups to the right. -/
def Fits (level : Nat) (stack : List Waiting) : Prop :=
  ∀ head, stack.head? = some (.operator head) →
    head.priority < level ∨ head.priority = level ∧ head.chains = true

theorem Fits.mono {level level' : Nat} {stack : List Waiting} (h : Fits level stack)
    (hle : level ≤ level') : Fits level' stack := by
  intro head hhead
  rcases h head hhead with hlt | ⟨heq, hchains⟩
  · exact .inl (by omega)
  · by_cases hsame : level = level'
    · exact .inr ⟨by omega, hchains⟩
    · exact .inl (by omega)

/-- Nothing is tighter than a sign, so a sign never sends anything to the output. -/
theorem holds_sign (s : Sign) (stack : List Waiting) : Holds s.operator stack := by
  intro head _
  have hle := head.priority_le
  have hyields : s.operator.yieldsTo head = decide (14 < head.priority) := by
    cases s <;> rfl
  rw [hyields, decide_eq_false_iff_not]
  omega

/-- A sign waits on top of whatever waits already. -/
theorem accept_sign (s : Sign) (y : Yard) :
    y.accept (.operator s.operator) = { y with stack := .operator s.operator :: y.stack } := by
  simp only [accept, release_of_holds (holds_sign s y.stack)]

theorem yieldsTo_power (p : Power) (head : Operator) :
    p.operator.yieldsTo head = decide (13 ≤ head.priority) := by
  cases p <;> rfl

theorem holds_power (p : Power) {stack : List Waiting} (h : Fits 13 stack) :
    Holds p.operator stack := by
  intro head hhead
  rw [yieldsTo_power, decide_eq_false_iff_not]
  rcases h head hhead with hlt | ⟨heq, hchains⟩
  · omega
  · rcases Operator.priority_of_chains hchains with h12 | h14 <;> omega

theorem yieldsTo_binary {op : Binary} {head : Operator}
    (h : op.priority < head.priority ∨
      op.priority ≤ head.priority ∧ (Operator.binary op).associativity = .left) :
    (Operator.binary op).yieldsTo head = true := by
  unfold Operator.yieldsTo
  cases hassoc : (Operator.binary op).associativity with
  | left =>
      rcases h with hlt | ⟨hle, _⟩
      · exact decide_eq_true (Nat.le_of_lt hlt)
      · exact decide_eq_true hle
  | right =>
      rcases h with hlt | ⟨_, hleft⟩
      · exact decide_eq_true hlt
      · rw [hassoc] at hleft
        exact absurd hleft (by decide)

theorem holds_binary {op : Binary} {stack : List Waiting} (h : Fits op.priority stack) :
    Holds (.binary op) stack := by
  intro head hhead
  unfold Operator.yieldsTo
  rcases h head hhead with hlt | ⟨heq, hchains⟩
  · have hlt' : head.priority < (Operator.binary op).priority := hlt
    cases (Operator.binary op).associativity with
    | left => exact decide_eq_false (by omega)
    | right => exact decide_eq_false (by omega)
  · -- Of equal priority is only exponentiation, which groups to the right.
    have hright : (Operator.binary op).associativity = .right := by
      have hle := op.priority_le
      refine Binary.right_of_priority ?_
      rcases Operator.priority_of_chains hchains with h12 | h14 <;> omega
    rw [hright]
    have heq' : head.priority = (Operator.binary op).priority := heq
    exact decide_eq_false (by omega)

end Yard

section

variable {f : Formula} {e : Bool} {op : Binary}

/-- Where brackets can be left out on one side of an operator, the operand is tighter
    than it, or as tight and on the side to which the operator groups. -/
theorem Binary.tight_of_no_brackets {inner : Binary} {side : Associativity}
    (h : ¬ (inner.priority < op.priority ||
      inner.priority == op.priority && (Operator.binary op).associativity == side) = true) :
    op.priority < inner.priority ∨
      op.priority = inner.priority ∧ (Operator.binary op).associativity ≠ side := by
  simp only [Bool.or_eq_true, decide_eq_true_eq, Bool.and_eq_true, beq_iff_eq, not_or, not_and] at h
  by_cases heq : inner.priority = op.priority
  · exact .inr ⟨heq.symm, h.2 heq⟩
  · exact .inl (by omega)

/-- A left operand acts before the operator after it. -/
theorem Formula.tight_leftOf (h : f.needsBrackets (.leftOf op) = true → e = true) :
    op.priority < writtenLevel e f ∨
      op.priority ≤ writtenLevel e f ∧ (Operator.binary op).associativity = .left := by
  have hle := op.priority_le
  cases e with
  | true => exact .inl (by rw [writtenLevel_true]; omega)
  | false =>
      rw [writtenLevel_false]
      cases f with
      | number | «variable» | signed | powered => exact .inl (by simp only [level]; omega)
      | binary inner a b =>
          rcases Binary.tight_of_no_brackets (fun hn => Bool.false_ne_true (h hn)) with
            hlt | ⟨heq, hassoc⟩
          · exact .inl hlt
          · refine .inr ⟨Nat.le_of_eq heq, ?_⟩
            cases hleft : (Operator.binary op).associativity with
            | left => rfl
            | right => exact absurd hleft hassoc

/-- A right operand is not torn apart by the operator before it. -/
theorem Formula.fits_rightOf (h : f.needsBrackets (.rightOf op) = true → e = true)
    (stack : List Waiting) : Yard.Fits (writtenLevel e f) (.operator (.binary op) :: stack) := by
  intro head hhead
  simp only [List.head?_cons, Option.some.injEq, Waiting.operator.injEq] at hhead
  subst hhead
  have hle := op.priority_le
  change op.priority < _ ∨ op.priority = _ ∧ _
  cases e with
  | true => exact .inl (by rw [writtenLevel_true]; omega)
  | false =>
      rw [writtenLevel_false]
      cases f with
      | number | «variable» | signed | powered => exact .inl (by simp only [level]; omega)
      | binary inner a b =>
          rcases Binary.tight_of_no_brackets (fun hn => Bool.false_ne_true (h hn)) with
            hlt | ⟨heq, hassoc⟩
          · exact .inl hlt
          · refine .inr ⟨heq, Binary.chains_of_right ?_⟩
            cases hright : (Operator.binary op).associativity with
            | left => exact absurd hright hassoc
            | right => rfl

theorem Formula.fits_afterSign (h : f.needsBrackets .afterSign = true → e = true) (s : Sign)
    (stack : List Waiting) :
    14 ≤ writtenLevel e f ∧ Yard.Fits (writtenLevel e f) (.operator s.operator :: stack) := by
  have hlevel : 14 ≤ writtenLevel e f := by
    cases e with
    | true => exact Nat.le_succ 14
    | false =>
        cases f with
        | number | «variable» => exact Nat.le_succ 14
        | signed => exact Nat.le_refl 14
        | powered | binary => exact absurd (h rfl) Bool.false_ne_true
  refine ⟨hlevel, fun head hhead => ?_⟩
  simp only [List.head?_cons, Option.some.injEq, Waiting.operator.injEq] at hhead
  subst hhead
  rw [s.priority_operator]
  by_cases heq : 14 = writtenLevel e f
  · exact .inr ⟨heq, s.chains_operator⟩
  · exact .inl (by omega)

theorem Formula.tight_beforePower (h : f.needsBrackets .beforePower = true → e = true) :
    13 ≤ writtenLevel e f := by
  cases e with
  | true => exact Nat.le_add_right 13 2
  | false =>
      cases f with
      | number | «variable» => exact Nat.le_add_right 13 2
      | signed => exact Nat.le_succ 13
      | powered => exact Nat.le_refl 13
      | binary => exact absurd (h rfl) Bool.false_ne_true

end

namespace Yard

/-- What the yard makes of a written formula that fits: the stack below is untouched,
    the operators that the formula leaves waiting are no looser than its level, and
    sending them to the output completes its program. -/
theorem foldl_accept_written {f : Formula} {e : Bool} {w : List Token} (h : Written f e w)
    (y : Yard) (hfits : Fits (writtenLevel e f) y.stack) :
    ∃ (ops : List Operator) (output : List Rpn),
      w.foldl accept y = ⟨output, ops.map .operator ++ y.stack, y.stray⟩ ∧
        (∀ op ∈ ops, writtenLevel e f ≤ op.priority) ∧
        sent ops output = f.program.reverse ++ y.output := by
  induction h generalizing y with
  | number v => exact ⟨[], _, rfl, fun _ hop => absurd hop List.not_mem_nil, rfl⟩
  | «variable» name => exact ⟨[], _, rfl, fun _ hop => absurd hop List.not_mem_nil, rfl⟩
  | @signed s a e w _ hb ih =>
      -- The sign waits below the operators of its operand.
      rcases Formula.fits_afterSign hb s y.stack with ⟨hlevel, hfits'⟩
      rcases ih ⟨y.output, .operator s.operator :: y.stack, y.stray⟩ hfits' with
        ⟨ops, output, hfold, hops, hsent⟩
      refine ⟨ops ++ [s.operator], output, ?_, ?_, ?_⟩
      · rw [List.foldl_cons, accept_sign, hfold]
        simp only [List.map_append, List.map_cons, List.map_nil, List.append_assoc,
          List.singleton_append]
      · intro op hop
        rcases List.mem_append.mp hop with hop | hop
        · exact Nat.le_trans hlevel (hops op hop)
        · rw [List.mem_singleton.mp hop, s.priority_operator]
          exact Nat.le_refl 14
      · rw [sent_append, hsent, Formula.program, List.reverse_append, List.append_assoc]
        rfl
  | @powered p a e w _ hb ih =>
      -- The power arrives after its operand and completes it.
      have hlevel := Formula.tight_beforePower hb
      rcases ih y (hfits.mono hlevel) with ⟨ops, output, hfold, hops, hsent⟩
      refine ⟨[p.operator], sent ops output, ?_, ?_, ?_⟩
      · rw [List.foldl_append, hfold]
        refine accept_operator (fun op hop => ?_) (holds_power p hfits) output y.stray
        rw [yieldsTo_power]
        exact decide_eq_true (Nat.le_trans hlevel (hops op hop))
      · intro op hop
        rw [List.mem_singleton.mp hop, p.priority_operator]
        exact Nat.le_refl 13
      · rw [hsent, Formula.program, List.reverse_append, List.append_assoc]
        rfl
  | @binary op a b e e' w w' _ hleft _ hright iha ihb =>
      -- The operator completes the left operand and waits for the right one.
      have htight := Formula.tight_leftOf hleft
      rcases iha y (hfits.mono (by change op.priority ≤ _; omega)) with
        ⟨ops, output, hfold, hops, hsent⟩
      have hop : accept ⟨output, ops.map .operator ++ y.stack, y.stray⟩ (.operator (.binary op))
          = ⟨sent ops output, .operator (.binary op) :: y.stack, y.stray⟩ := by
        refine accept_operator (fun head hhead => ?_) (holds_binary hfits) output y.stray
        have hle := hops head hhead
        refine yieldsTo_binary ?_
        rcases htight with hlt | ⟨hlt, hassoc⟩
        · exact .inl (by omega)
        · exact .inr ⟨by omega, hassoc⟩
      have hfits' := Formula.fits_rightOf hright y.stack
      have hlevel : op.priority ≤ writtenLevel e' b := by
        rcases hfits' (.binary op) rfl with hlt | ⟨heq, _⟩
        · exact Nat.le_of_lt hlt
        · exact Nat.le_of_eq heq
      rcases ihb ⟨sent ops output, .operator (.binary op) :: y.stack, y.stray⟩ hfits' with
        ⟨ops', output', hfold', hops', hsent'⟩
      refine ⟨ops' ++ [.binary op], output', ?_, ?_, ?_⟩
      · rw [List.foldl_append, hfold, List.foldl_cons, hop, hfold']
        simp only [List.map_append, List.map_cons, List.map_nil, List.append_assoc,
          List.singleton_append]
      · intro head hhead
        rcases List.mem_append.mp hhead with hhead | hhead
        · exact Nat.le_trans hlevel (hops' head hhead)
        · rw [List.mem_singleton.mp hhead]
          exact Nat.le_refl _
      · rw [sent_append, hsent', hsent, Formula.program]
        simp only [sent_cons, sent_nil, List.reverse_append, List.reverse_cons, List.reverse_nil,
          List.nil_append, List.cons_append, List.append_assoc]
  | @enclosed a e w _ ih =>
      -- The brackets hide what is below, so anything fits there.
      have hopen : Fits (writtenLevel e a) (.bracket :: y.stack) := by
        intro head hhead
        simp only [List.head?_cons, Option.some.injEq, reduceCtorEq] at hhead
      rcases ih ⟨y.output, .bracket :: y.stack, y.stray⟩ hopen with
        ⟨ops, output, hfold, _, hsent⟩
      refine ⟨[], sent ops output, ?_, fun _ hop => absurd hop List.not_mem_nil, hsent⟩
      rw [bracketed, List.foldl_cons, List.foldl_append]
      change List.foldl accept (List.foldl accept ⟨y.output, .bracket :: y.stack, y.stray⟩ w) _ = _
      rw [hfold]
      exact close_waiting ops (.bracket :: y.stack) output y.stray

end Yard

/-- The program of a written formula. -/
theorem ofTokens_written {f : Formula} {e : Bool} {w : List Token} (h : Written f e w) :
    Rpn.ofTokens w = (some f.program, []) := by
  have hfits : Yard.Fits (writtenLevel e f) [] := by
    intro head hhead
    simp only [List.head?_nil, reduceCtorEq] at hhead
  rcases Yard.foldl_accept_written h {} hfits with ⟨ops, output, hfold, _, hsent⟩
  refine Rpn.ofTokens_eq_some_iff.mpr ⟨ops, output, ?_, ?_⟩
  · rw [hfold]
    simp only [List.append_nil]
  · rw [hsent, List.append_nil, List.reverse_reverse]

section

variable {σ : Type} [Variables σ]

/-- A program that does what `x` does: it leaves the value of `x` on the stack and goes on
    with the rest. -/
def Computes (program : List Rpn) (x : Eval σ Scalar) : Prop :=
  ∀ (rest : List Rpn) (stack : List Scalar), (evaluateFrom (program ++ rest) stack :
    Eval σ (Option Scalar)) = x >>= fun v => evaluateFrom rest (v :: stack)

namespace Computes

theorem number (v : Scalar) : Computes [.number v] (Eval.pure v : Eval σ Scalar) :=
  fun _ _ => rfl

theorem «variable» (name : String) :
    Computes [.variable name] (Formula.lookUp name : Eval σ Scalar) := by
  intro rest stack
  funext s
  simp only [Formula.lookUp, List.singleton_append, evaluateFrom, Eval.bind_apply]
  rcases Variables.read name s with ⟨v, s'⟩
  cases v with
  | none => rfl
  | some v => rfl

theorem unary {program : List Rpn} {x : Eval σ Scalar} (h : Computes program x) (op : Unary) :
    Computes (program ++ [.apply (.unary op)]) (do return op.apply (← x)) := by
  intro rest stack
  rw [List.append_assoc, List.singleton_append, h]
  funext s
  simp only [Eval.bind_apply, Eval.pure_apply, List.append_nil]
  rfl

theorem binary {left right : List Rpn} {x y : Eval σ Scalar} (hx : Computes left x)
    (hy : Computes right y) (op : Binary) :
    Computes (left ++ right ++ [.apply (.binary op)]) (do
      let a ← x
      let b ← y
      return op.apply a b) := by
  intro rest stack
  have hright := hy (.apply (.binary op) :: rest)
  rw [List.append_assoc, List.append_assoc, hx, List.singleton_append]
  funext s
  simp only [Eval.bind_apply, Eval.pure_apply, hright, List.append_nil, List.append_assoc]
  rfl

end Computes

/-- The program of a formula leaves its value on the stack and goes on with the rest.
    Which operands there are is known from the tree, so none is ever missing. -/
theorem computes_program (f : Formula) : Computes f.program (f.value : Eval σ Scalar) := by
  induction f with
  | number v => exact .number v
  | «variable» name => exact .variable name
  | signed op a ih => exact ih.unary op.unary
  | powered op a ih => exact ih.unary op.unary
  | binary op a b iha ihb => exact iha.binary ihb op

/-- The program of a formula evaluates to its result. -/
theorem evaluate_program (f : Formula) (s : σ) : evaluate f.program s = f.result s := by
  have hvalue := congrFun (computes_program f [] []) s
  rw [List.append_nil] at hvalue
  rw [evaluate, hvalue, Eval.bind_apply]
  by_cases hfinite : (f.value s).value.isFinite = true
  · simp only [evaluateFrom, conclude, Formula.result, if_pos hfinite]
  · simp only [evaluateFrom, conclude, Formula.result, if_neg hfinite]

end

/-- Written formulas mean what they say. However a formula is written, reading the
    tokens succeeds without a problem and gives the steps of the formula, and
    evaluating these in any context gives its result, computed along the tree with
    operands read from left to right. -/
theorem meaning_of_written {f : Formula} {e : Bool} {w : List Token} (h : Written f e w) :
    Rpn.ofTokens w = (some f.program, []) ∧
      ∀ {σ : Type} [Variables σ] (s : σ), evaluate f.program s = f.result s :=
  ⟨ofTokens_written h, fun s => evaluate_program f s⟩

/-- The tokens of `-2 ^ ($A + 3)²`: the sign belongs to the base, and the brackets
    cannot be left out before the power. -/
theorem meaning_of_written_power :
    let sum : Formula := .binary .add (.variable "A") (.number 3.0)
    let f : Formula := .binary .power (.signed .minus (.number 2.0)) (.powered .square sum)
    let w : List Token := [.operator (.unary .minus), .number 2.0, .operator (.binary .power),
      .opening, .variable "A", .operator (.binary .add), .number 3.0, .closing,
      .operator (.unary .square)]
    Written f false w ∧ Rpn.ofTokens w = (some f.program, []) ∧
      ∀ t : Turtle, evaluate f.program t = f.result t := by
  intro sum f w
  have hsum : Written sum false [.variable "A", .operator (.binary .add), .number 3.0] :=
    .binary .add (.variable "A") (by decide) (.number 3.0) (by decide)
  have hw : Written f false w :=
    .binary .power (.signed .minus (.number 2.0) (by decide)) (by decide)
      (.powered .square (.enclosed hsum) (fun _ => rfl)) (by decide)
  exact ⟨hw, (meaning_of_written hw).1, (meaning_of_written hw).2⟩

end TurtleGraphics
