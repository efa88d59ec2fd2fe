import TurtleGraphics.Proofs.Context
import TurtleGraphics.Proofs.Infix

/-!
# Operators Before Their Operand

Signs and roots stand before their operand, in any number and order. A root is looser
than a sign. So when a root arrives, the signs that wait in front of it are sent to
the output, although nothing has been written yet that they could apply to: they
apply to whatever stands further to the left. Only a sequence in which all roots come
before all signs is read as it is meant, the last operator first.

Where such a sequence stands is a `Slot`: tokens to the left that ask for an operand
and tokens to the right that go on from one. Each part of the text is then read by
itself. The left part gives a yard whose stack no prefix operator tears apart, the
prefix operators wait on top of it or are released (`Yard.foldl_accept_prefixes`), and
the first token on the right sends all that still wait to the output
(`Yard.result_foldl_completed`), since nothing that follows an operand is as tight as
they are.

## Main definitions

* `Root`, `Prefix`: The operators before their operand.
* `Prefix.released`: The signs that are sent to the output too early.
* `Prefix.waiting`: The operators that wait until the operand is complete.
* `Prefix.RootsFirst`: All roots come before all signs.
* `Operand`: Numbers, variables and bracketed expressions with their programs.
* `Slot`: The surroundings of an operand.
* `Yard.result`: The program that a yard ends with.

## Theorems

* `Prefix.waiting_of_released`: If no sign is released early, all operators wait in
  order.
* `Prefix.rootsFirst_of_suffix`: Operators wait in order only if the roots come first.
* `Prefix.steps_eq_iff`: When the steps of prefix operators follow on the operand.
* `Prefix.inContext_prefixes`: Prefix operators are read as such.
* `Yard.foldl_accept_prefixes`: What the yard makes of prefix operators.
* `Yard.result_foldl_completed`: What follows an operand completes it.
* `Slot.result_filled`: The program of a filled slot.
* `prefixes_apply_iff`: Prefix operators apply to their operand exactly if the roots
  come first.
-/

namespace TurtleGraphics

/-- The operators before their operand that are looser than signs. -/
inductive Root where
  | square
  | cube
  deriving DecidableEq, Repr

/-- The operators that stand before their operand. -/
inductive Prefix where
  | sign (s : Sign)
  | root (r : Root)
  deriving DecidableEq, Repr

def Root.operator : Root → Operator
  | .square => .unary .squareRoot
  | .cube => .unary .cubeRoot

namespace Prefix

def operator : Prefix → Operator
  | .sign s => s.operator
  | .root r => r.operator

def step (p : Prefix) : Rpn := .apply p.operator

/-- The operator as it is written. The signs `+` and `-` are not told apart from the
    operators with two operands. -/
def symbol : Prefix → Token
  | .sign .plus => .operator (.binary .add)
  | .sign .minus => .operator (.binary .subtract)
  | p => .operator p.operator

def isRoot : Prefix → Bool
  | .sign _ => false
  | .root _ => true

/-- The signs that are sent to the output before the operand, in this order, where
    `signs` wait already, the latest first: each root sends all signs that wait. -/
def released (signs : List Sign) : List Prefix → List Sign
  | [] => []
  | .sign s :: ps => released (s :: signs) ps
  | .root _ :: ps => signs ++ released [] ps

/-- The operators that wait when the operand arrives, the latest first. Signs always
    wait above roots. -/
def waiting (signs : List Sign) (roots : List Root) : List Prefix → List Prefix
  | [] => signs.map .sign ++ roots.map .root
  | .sign s :: ps => waiting (s :: signs) roots ps
  | .root r :: ps => waiting [] (r :: roots) ps

/-- All roots come before all signs. -/
def RootsFirst (ps : List Prefix) : Prop :=
  ∃ (roots : List Root) (signs : List Sign), ps = roots.map .root ++ signs.map .sign

theorem operator_injective {p q : Prefix} (h : p.operator = q.operator) : p = q := by
  revert h
  rcases p with s | r <;> rcases q with s' | r'
  · cases s <;> cases s' <;> decide
  · cases s <;> cases r' <;> decide
  · cases r <;> cases s' <;> decide
  · cases r <;> cases r' <;> decide

theorem step_injective {p q : Prefix} (h : p.step = q.step) : p = q :=
  operator_injective (Rpn.apply.inj h)

theorem released_of_rootsFirst {ps : List Prefix} (h : RootsFirst ps) : released [] ps = [] := by
  rcases h with ⟨roots, signs, rfl⟩
  -- Only a root releases signs, and none follows on the first sign.
  have hsigns : ∀ waiting : List Sign, released waiting (signs.map .sign) = [] := by
    induction signs with
    | nil => intro waiting; rfl
    | cons s signs ih => intro waiting; exact ih (s :: waiting)
  induction roots with
  | nil => exact hsigns []
  | cons r roots ih => exact ih

/-- If no sign is released early, all operators wait in the order in which they were
    written. -/
theorem waiting_of_released {signs : List Sign} {ps : List Prefix}
    (h : released signs ps = []) (roots : List Root) :
    waiting signs roots ps = ps.reverse ++ (signs.map .sign ++ roots.map .root) := by
  induction ps generalizing signs roots with
  | nil => rfl
  | cons p ps ih =>
      rw [List.reverse_cons, List.append_assoc]
      cases p with
      | sign s => exact ih h roots
      | root r =>
          rcases List.append_eq_nil_iff.mp h with ⟨rfl, hrest⟩
          exact ih hrest (r :: roots)

theorem exists_waiting (signs : List Sign) (roots : List Root) (ps : List Prefix) :
    ∃ (signs' : List Sign) (roots' : List Root),
      waiting signs roots ps = signs'.map .sign ++ roots'.map .root := by
  induction ps generalizing signs roots with
  | nil => exact ⟨signs, roots, rfl⟩
  | cons p ps ih =>
      cases p with
      | sign s => exact ih (s :: signs) roots
      | root r => exact ih [] (r :: roots)

theorem countP_map_sign (signs : List Sign) : (signs.map sign).countP isRoot = 0 := by
  rw [List.countP_map]
  exact List.countP_eq_zero.mpr (fun _ _ => Bool.false_ne_true)

theorem countP_map_root (roots : List Root) : (roots.map root).countP isRoot = roots.length := by
  rw [List.countP_map]
  exact List.countP_eq_length.mpr (fun _ _ => rfl)

/-- Signs may be released, but every root waits. -/
theorem countP_waiting (signs : List Sign) (roots : List Root) (ps : List Prefix) :
    (waiting signs roots ps).countP isRoot = ps.countP isRoot + roots.length := by
  induction ps generalizing signs roots with
  | nil =>
      rw [waiting, List.countP_append, countP_map_sign, countP_map_root, List.countP_nil]
  | cons p ps ih =>
      cases p with
      | sign s =>
          rw [waiting, ih, List.countP_cons_of_neg Bool.false_ne_true]
      | root r =>
          rw [waiting, ih, List.countP_cons_of_pos rfl, List.length_cons]
          omega

theorem length_waiting_le (signs : List Sign) (roots : List Root) (ps : List Prefix) :
    (waiting signs roots ps).length ≤ ps.length + signs.length + roots.length := by
  induction ps generalizing signs roots with
  | nil =>
      rw [waiting, List.length_append, List.length_map, List.length_map, List.length_nil]
      omega
  | cons p ps ih =>
      cases p with
      | sign s =>
          have hle := ih (s :: signs) roots
          rw [List.length_cons] at hle ⊢
          rw [waiting]
          omega
      | root r =>
          have hle := ih [] (r :: roots)
          rw [List.length_cons] at hle ⊢
          rw [waiting]
          rw [List.length_nil] at hle
          omega

theorem exists_map_sign {ps : List Prefix} (h : ps.countP isRoot = 0) :
    ∃ signs : List Sign, ps = signs.map .sign := by
  induction ps with
  | nil => exact ⟨[], rfl⟩
  | cons p ps ih =>
      cases p with
      | root r =>
          rw [List.countP_cons_of_pos rfl] at h
          omega
      | sign s =>
          rw [List.countP_cons_of_neg Bool.false_ne_true] at h
          rcases ih h with ⟨signs, rfl⟩
          exact ⟨s :: signs, rfl⟩

/-- If the operators that wait are the first ones that were written, in order, then
    the roots came first. -/
theorem rootsFirst_of_suffix {ps : List Prefix} (h : waiting [] [] ps <:+ ps.reverse) :
    RootsFirst ps := by
  rcases h with ⟨missing, hmissing⟩
  -- All roots wait, so only signs can be missing, and these were written last.
  have hcount := congrArg (List.countP isRoot) hmissing
  rw [List.countP_append, List.countP_reverse, countP_waiting, List.length_nil] at hcount
  rcases exists_map_sign (by omega : missing.countP isRoot = 0) with ⟨late, rfl⟩
  rcases exists_waiting [] [] ps with ⟨signs, roots, hwaiting⟩
  refine ⟨roots.reverse, signs.reverse ++ late.reverse, ?_⟩
  rw [hwaiting] at hmissing
  have hps := congrArg List.reverse hmissing
  rw [List.reverse_reverse] at hps
  rw [← hps]
  simp only [List.reverse_append, List.map_append, List.map_reverse, List.append_assoc]

theorem mem_of_mem_released {sign : Sign} {signs : List Sign} {ps : List Prefix}
    (h : sign ∈ released signs ps) : sign ∈ signs ∨ .sign sign ∈ ps := by
  induction ps generalizing signs with
  | nil => exact absurd h List.not_mem_nil
  | cons p ps ih =>
      cases p with
      | sign s =>
          rcases ih h with hsigns | hps
          · rcases List.mem_cons.mp hsigns with rfl | hsigns
            · exact .inr List.mem_cons_self
            · exact .inl hsigns
          · exact .inr (List.mem_cons_of_mem _ hps)
      | root r =>
          rcases List.mem_append.mp h with hsigns | hrest
          · exact .inl hsigns
          · rcases ih hrest with hnone | hps
            · exact absurd hnone List.not_mem_nil
            · exact .inr (List.mem_cons_of_mem _ hps)

theorem exists_released {ps : List Prefix} (h : ¬ RootsFirst ps) :
    ∃ (sign : Sign) (rest : List Sign), released [] ps = sign :: rest ∧ .sign sign ∈ ps := by
  cases hreleased : released [] ps with
  | nil =>
      -- Had no sign been released, all operators would wait in order.
      have hwaiting := waiting_of_released hreleased []
      simp only [List.map_nil, List.append_nil] at hwaiting
      exact absurd (rootsFirst_of_suffix ⟨[], hwaiting⟩) h
  | cons sign rest =>
      refine ⟨sign, rest, rfl, ?_⟩
      have hmem : sign ∈ released [] ps := by
        rw [hreleased]
        exact List.mem_cons_self
      rcases mem_of_mem_released hmem with hnone | hps
      · exact absurd hnone List.not_mem_nil
      · exact hps

/-- The steps of prefix operators stand behind those of the operand, in reverse order,
    exactly if the roots come first. -/
theorem steps_eq_iff {ps : List Prefix} {program rest : List Rpn} :
    (released [] ps).map (.apply ·.operator) ++ (program ++ ((waiting [] [] ps).map step ++ rest))
        = program ++ (ps.reverse.map step ++ rest)
      ↔ RootsFirst ps := by
  constructor
  · intro h
    -- Whatever has been released, the end of the program is what waits.
    rw [← List.append_assoc, ← List.append_assoc, ← List.append_assoc program,
      List.append_left_inj] at h
    have hends : (waiting [] [] ps).map step <:+ program ++ ps.reverse.map step := by
      rw [← h]
      exact List.suffix_append _ _
    have hle := length_waiting_le [] [] ps
    have hsuffix : (waiting [] [] ps).map step <:+ ps.reverse.map step := by
      refine List.suffix_of_suffix_length_le hends (List.suffix_append _ _) ?_
      rw [List.length_map, List.length_map, List.length_reverse]
      exact hle
    rcases hsuffix with ⟨missing, hmissing⟩
    rcases List.map_eq_append_iff.mp hmissing.symm with ⟨first, last, hreverse, _, hlast⟩
    have hsame : last = waiting [] [] ps :=
      (List.map_inj_right (fun _ _ => step_injective)).mp hlast
    exact rootsFirst_of_suffix ⟨first, by rw [hreverse, hsame]⟩
  · intro h
    have hreleased := released_of_rootsFirst h
    have hwaiting := waiting_of_released hreleased []
    rw [hreleased, hwaiting]
    simp only [List.map_nil, List.nil_append, List.append_nil]

theorem asSign_symbol (p : Prefix) : p.symbol.asSign = .operator p.operator := by
  rcases p with s | r
  · cases s <;> rfl
  · cases r <;> rfl

theorem symbol_ne_equal (p : Prefix) : p.symbol ≠ .operator (.binary .equal) := by
  rcases p with s | r
  · cases s <;> decide
  · cases r <;> decide

theorem head_ne_equal (ps : List Prefix) {rest : List Token}
    (hrest : ∀ u ∈ rest.head?, u ≠ .operator (.binary .equal)) :
    ∀ u ∈ (ps.map symbol ++ rest).head?, u ≠ .operator (.binary .equal) := by
  intro u hu
  cases ps with
  | nil => exact hrest u hu
  | cons p ps =>
      rw [← Option.some.inj hu]
      exact p.symbol_ne_equal

/-- Prefix operators are read as such wherever no operand ends before them, and after
    them no operand has ended either. -/
theorem inContext_prefixes (ps : List Prefix) {rest : List Token}
    (hrest : ∀ u ∈ rest.head?, u ≠ .operator (.binary .equal)) :
    inContext (ps.map symbol ++ rest)
      = ps.map (fun p => .operator p.operator) ++ inContext rest := by
  induction ps with
  | nil => rfl
  | cons p ps ih =>
      have hnext : ∀ u ∈ (ps.map symbol ++ rest).head?, Token.comparison? p.symbol u = none :=
        fun u hu => Token.comparison?_of_ne (head_ne_equal ps hrest u hu) p.symbol
      have hplaced : Token.placed none p.symbol = .operator p.operator := p.asSign_symbol
      have hafter : Token.operandBefore (some (.operator p.operator)) = false := rfl
      rw [List.map_cons, List.cons_append, inContext, Token.inContextAfter_cons hnext, hplaced,
        Token.written_of_not_operandBefore rfl, Token.inContextAfter_of_not_operandBefore hafter]
      exact congrArg (Token.operator p.operator :: ·) ih

theorem le_priority (p : Prefix) : 13 ≤ p.operator.priority := by
  rcases p with s | r
  · cases s <;> decide
  · cases r <;> decide

end Prefix

namespace Yard

theorem yieldsTo_root (r : Root) (head : Operator) :
    r.operator.yieldsTo head = decide (13 < head.priority) := by
  cases r <;> rfl

theorem priority_root (r : Root) : r.operator.priority = 13 := by
  cases r <;> rfl

theorem holds_root (r : Root) (roots : List Root) {stack : List Waiting} (h : Fits 13 stack) :
    Holds r.operator (roots.map (.operator ·.operator) ++ stack) := by
  intro head hhead
  rw [yieldsTo_root, decide_eq_false_iff_not]
  cases roots with
  | nil =>
      rcases h head hhead with hlt | ⟨heq, _⟩ <;> omega
  | cons top roots =>
      -- Roots group to the right, so one does not yield to another.
      have hsame : head = top.operator := by
        cases hhead
        rfl
      rw [hsame, priority_root]
      omega

/-- A root sends all signs that wait to the output and joins the roots. -/
theorem accept_root (r : Root) (signs : List Sign) (roots : List Root) {stack : List Waiting}
    (h : Fits 13 stack) (output : List Rpn) (stray : Bool) :
    accept ⟨output, signs.map (.operator ·.operator) ++ (roots.map (.operator ·.operator) ++ stack),
        stray⟩ (.operator r.operator)
      = ⟨sent (signs.map Sign.operator) output,
          (r :: roots).map (.operator ·.operator) ++ stack, stray⟩ := by
  have hyields : ∀ head ∈ signs.map Sign.operator, r.operator.yieldsTo head = true := by
    intro head hhead
    rcases List.mem_map.mp hhead with ⟨s, _, rfl⟩
    rw [yieldsTo_root, s.priority_operator]
    rfl
  have haccept := accept_operator hyields (holds_root r roots h) output stray
  rw [List.map_map] at haccept
  exact haccept

/-- What prefix operators do to a yard. The signs that roots meet on top of the stack go
    to the output, and all other operators wait. -/
theorem foldl_accept_prefixes (ps : List Prefix) (signs : List Sign) (roots : List Root)
    {stack : List Waiting} (h : Fits 13 stack) (output : List Rpn) (stray : Bool) :
    (ps.map (fun p => Token.operator p.operator)).foldl accept
        ⟨output, signs.map (.operator ·.operator) ++ (roots.map (.operator ·.operator) ++ stack),
          stray⟩
      = ⟨sent ((Prefix.released signs ps).map Sign.operator) output,
          ((Prefix.waiting signs roots ps).map Prefix.operator).map .operator ++ stack, stray⟩ := by
  induction ps generalizing signs roots output with
  | nil =>
      simp only [List.map_nil, List.foldl_nil, Prefix.released, Prefix.waiting, sent_nil,
        List.map_append, List.map_map, List.append_assoc]
      rfl
  | cons p ps ih =>
      rw [List.map_cons, List.foldl_cons]
      cases p with
      | sign s =>
          have haccept := accept_sign s ⟨output, signs.map (.operator ·.operator) ++
            (roots.map (.operator ·.operator) ++ stack), stray⟩
          rw [Prefix.operator, haccept]
          exact ih (s :: signs) roots output
      | root r =>
          rw [Prefix.operator, accept_root r signs roots h output stray, Prefix.released,
            List.map_append, sent_append]
          exact ih [] (r :: roots) (sent (signs.map Sign.operator) output)

/-- The program that a yard ends with, unless a bracket is still open. -/
def result (y : Yard) : Option (List Rpn) :=
  if y.unclosed then none else some (drain y.stack y.output).reverse

theorem result_ofTokens (tokens : List Token) :
    (Rpn.ofTokens tokens).1 = (tokens.foldl accept {}).result := by
  simp only [Rpn.ofTokens, result]
  by_cases h : (tokens.foldl accept {}).unclosed = true
  · rw [if_pos h, if_pos h]
  · rw [if_neg h, if_neg h]

theorem result_prefixed (before : List Rpn) (y : Yard) :
    (y.prefixed before).result = y.result.map (before.reverse ++ ·) := by
  have hunclosed : (y.prefixed before).unclosed = y.unclosed := rfl
  simp only [result, hunclosed]
  by_cases h : y.unclosed = true
  · rw [if_pos h, if_pos h]
    rfl
  · rw [if_neg h, if_neg h, prefixed, drain_output, List.reverse_append]
    rfl

theorem accept_completing {t : Token} (ht : t.completes = true) {ops : List Operator}
    (hops : ∀ op ∈ ops, 13 ≤ op.priority) (stack : List Waiting) (output : List Rpn)
    (stray : Bool) :
    accept ⟨output, ops.map .operator ++ stack, stray⟩ t
      = accept ⟨sent ops output, stack, stray⟩ t := by
  cases t with
  | number | «variable» | opening => exact absurd ht Bool.false_ne_true
  | closing => exact close_waiting ops stack output stray
  | operator op =>
      -- No operator that can follow an operand is tighter than a prefix operator, and
      -- the powers, which are as tight as roots, group to the left.
      have hyields : ∀ head ∈ ops, op.yieldsTo head = true := by
        intro head hhead
        have hhigh := hops head hhead
        cases op with
        | binary op =>
            have hle := op.priority_le
            exact yieldsTo_binary (.inl (by omega))
        | unary op =>
            cases op with
            | square | cube => exact decide_eq_true hhigh
            | not | plus | minus | squareRoot | cubeRoot => exact absurd ht Bool.false_ne_true
      simp only [accept, release_waiting hyields]

/-- What follows an operand completes it: the prefix operators that wait act before
    anything else does, also at the end of the tokens. -/
theorem result_foldl_completed {tokens : List Token}
    (htokens : ∀ t ∈ tokens.head?, t.completes = true) {ops : List Operator}
    (hops : ∀ op ∈ ops, 13 ≤ op.priority) (stack : List Waiting) (output : List Rpn)
    (stray : Bool) :
    (tokens.foldl accept ⟨output, ops.map .operator ++ stack, stray⟩).result
      = (tokens.foldl accept ⟨sent ops output, stack, stray⟩).result := by
  cases tokens with
  | cons t rest =>
      rw [List.foldl_cons, List.foldl_cons, accept_completing (htokens t rfl) hops]
  | nil =>
      have hunclosed : unclosed ⟨output, ops.map .operator ++ stack, stray⟩
          = unclosed ⟨sent ops output, stack, stray⟩ := by
        rw [Bool.eq_iff_iff, unclosed, unclosed, List.contains_iff_mem, List.contains_iff_mem,
          List.mem_append]
        constructor
        · intro hmem
          rcases hmem with hmem | hmem
          · rcases List.mem_map.mp hmem with ⟨_, _, hop⟩
            cases hop
          · exact hmem
        · exact .inr
      rw [List.foldl_nil, List.foldl_nil, result, result, hunclosed, drain_waiting]

end Yard

/-- The operands before which prefix operators can stand, as they are written, with
    their programs. -/
inductive Operand : List Token → List Rpn → Prop where
  | number (v : Scalar) : Operand [.number v] [.number v]
  | variable (name : String) : Operand [.variable name] [.variable name]
  | bracketed {inner : List Token} {program : List Rpn}
      (h : Rpn.ofTokens (inContext inner) = (some program, [])) :
      Operand (bracketed inner) program

/-- The surroundings of an operand, as they are written. The tokens to the left end
    with nothing at all, an opening bracket or an operator with two operands. Their
    brackets are closed on the right, as one sees when there is a variable between
    them. -/
structure Slot where
  left : List Token
  right : List Token
  expects : ∀ t ∈ (inContext left).getLast?, t = .opening ∨ ∃ op, t = .operator (.binary op)
  closed : (Rpn.ofTokens (inContext (left ++ .variable "X" :: right))).1.isSome = true

theorem inContext_bracketed (inner : List Token) :
    inContext (bracketed inner) = bracketed (inContext inner) := by
  have hopening : ∀ u ∈ (inner ++ [Token.closing]).head?, Token.comparison? .opening u = none :=
    fun _ _ => rfl
  have hclosing : ∀ t ∈ inner.getLast?, ∀ u ∈ [Token.closing].head?,
      Token.comparison? t u = none := by
    intro t _ u hu
    rw [← Option.some.inj hu]
    exact Token.comparison?_of_ne (fun h => by cases h) t
  have hafter : Token.operandBefore (some .opening) = false := rfl
  have hplaced : Token.placed none .opening = .opening := rfl
  have hlast : ∀ last, Token.inContextAfter last [.closing] = [.closing] := by
    intro last
    have hsign : Token.asSign .closing = .closing := rfl
    rw [Token.inContextAfter, Token.placed, hsign, ite_self]
    exact Token.written_of_not_startsOperand rfl last
  rw [bracketed, inContext, Token.inContextAfter_cons hopening, hplaced,
    Token.written_of_not_operandBefore rfl, Token.inContextAfter_of_not_operandBefore hafter,
    Token.inContextAfter_append hclosing, hlast]
  rfl

theorem getLast?_bracketed (inner : List Token) :
    (bracketed inner).getLast? = some .closing := by
  rw [bracketed, ← List.cons_append, List.getLast?_concat]

namespace Operand

variable {operand : List Token} {program : List Rpn}

theorem head_ne_equal (h : Operand operand program) (right : List Token) :
    ∀ u ∈ (operand ++ right).head?, u ≠ .operator (.binary .equal) := by
  intro u hu
  cases h with
  | number | «variable» | bracketed =>
      rw [← Option.some.inj hu]
      exact fun h => by cases h

theorem exists_getLast? (h : Operand operand program) :
    ∃ l, operand.getLast? = some l ∧ l.endsOperand = true ∧
      Token.lastAfter none operand = some l := by
  cases h with
  | number v => exact ⟨.number v, rfl, rfl, rfl⟩
  | «variable» name => exact ⟨.variable name, rfl, rfl, rfl⟩
  | @bracketed inner _ _ =>
      refine ⟨.closing, getLast?_bracketed inner, rfl, ?_⟩
      have hread : Token.inContextAfter none (TurtleGraphics.bracketed inner)
          = TurtleGraphics.bracketed (inContext inner) := inContext_bracketed inner
      rw [Token.lastAfter, hread, getLast?_bracketed]
      rfl

/-- Operands send their programs to the output and change nothing else. -/
theorem foldl_accept (h : Operand operand program) (y : Yard) :
    (inContext operand).foldl Yard.accept y = { y with output := program.reverse ++ y.output } := by
  cases h with
  | number v => rfl
  | «variable» name => rfl
  | bracketed h =>
      rw [inContext_bracketed]
      exact Yard.foldl_accept_bracketed h y

/-- An operand and what goes on from it are read one after the other. -/
theorem inContext_append (h : Operand operand program) {right : List Token}
    (hright : ∀ l ∈ operand.getLast?, Token.goesOn l right = true) :
    inContext (operand ++ right)
        = inContext operand ++ Token.inContextAfter (some .closing) right ∧
      ∀ t ∈ (Token.inContextAfter (some .closing) right).head?, t.completes = true := by
  rcases h.exists_getLast? with ⟨l, hlast, hends, hafter⟩
  have hcut : ∀ t ∈ operand.getLast?, ∀ u ∈ right.head?, Token.comparison? t u = none := by
    intro t ht u _
    rw [hlast] at ht
    rw [← Option.some.inj ht]
    exact Token.comparison?_of_endsOperand hends u
  rcases Token.inContextAfter_of_goesOn hends (hright l hlast) with ⟨hsame, hcompletes⟩
  refine ⟨?_, hcompletes⟩
  rw [inContext, Token.inContextAfter_append hcut, hafter, hsame]
  rfl

end Operand

namespace Slot

/-- The yard when the tokens to the left have been read. -/
def yard (s : Slot) : Yard := (inContext s.left).foldl Yard.accept {}

/-- The steps that stand in the output before the operand. -/
def before (s : Slot) : List Rpn := s.yard.output.reverse

/-- The steps that follow the operand, unless a bracket stays open. -/
def after (s : Slot) : Option (List Rpn) :=
  ((Token.inContextAfter (some .closing) s.right).foldl Yard.accept
    ⟨[], s.yard.stack, s.yard.stray⟩).result

theorem operandBefore_left (s : Slot) :
    Token.operandBefore (Token.lastAfter none s.left) = false := by
  have hexpects := s.expects
  rw [inContext] at hexpects
  rw [Token.lastAfter, Option.or_none]
  cases hlast : (Token.inContextAfter none s.left).getLast? with
  | none => rfl
  | some t =>
      rcases hexpects t hlast with rfl | ⟨op, rfl⟩
      · rfl
      · rfl

/-- What waits on the left is a bracket or looser than any prefix operator. -/
theorem fits_left (s : Slot) : Yard.Fits 13 s.yard.stack := by
  intro head hhead
  rw [yard] at hhead
  cases hlast : (inContext s.left).getLast? with
  | none =>
      rw [List.getLast?_eq_none_iff.mp hlast] at hhead
      cases hhead
  | some t =>
      rcases List.getLast?_eq_some_iff.mp hlast with ⟨init, hinit⟩
      rw [hinit, List.foldl_append, List.foldl_cons, List.foldl_nil] at hhead
      rcases s.expects t hlast with rfl | ⟨op, rfl⟩
      · cases hhead
      · have hle := op.priority_le
        have hsame : head = .binary op := by
          cases hhead
          rfl
        rw [hsame]
        exact .inl (Nat.lt_succ_of_le hle)

theorem inContext_filled (s : Slot) (ps : List Prefix) {operand : List Token}
    {program : List Rpn} (h : Operand operand program)
    (hright : ∀ l ∈ operand.getLast?, Token.goesOn l s.right = true) :
    inContext (s.left ++ (ps.map Prefix.symbol ++ (operand ++ s.right)))
      = inContext s.left ++ (ps.map (fun p => Token.operator p.operator) ++
          (inContext operand ++ Token.inContextAfter (some .closing) s.right)) := by
  have hnext := h.head_ne_equal s.right
  have hcut : ∀ t ∈ s.left.getLast?,
      ∀ u ∈ (ps.map Prefix.symbol ++ (operand ++ s.right)).head?, Token.comparison? t u = none :=
    fun t _ u hu => Token.comparison?_of_ne (Prefix.head_ne_equal ps hnext u hu) t
  have hprefixes := Prefix.inContext_prefixes ps hnext
  rw [(h.inContext_append hright).1, inContext] at hprefixes
  rw [inContext, Token.inContextAfter_append hcut,
    Token.inContextAfter_of_not_operandBefore s.operandBefore_left, hprefixes]
  rfl

/-- The program of a filled slot. The signs that are released early follow directly on
    the steps from the left, and the operators that wait follow on the operand. -/
theorem result_filled (s : Slot) (ps : List Prefix) {operand : List Token} {program : List Rpn}
    (h : Operand operand program)
    (hright : ∀ l ∈ operand.getLast?, Token.goesOn l s.right = true) :
    (Rpn.ofTokens (inContext (s.left ++ (ps.map Prefix.symbol ++ (operand ++ s.right))))).1
      = s.after.map (fun rest => s.before ++ ((Prefix.released [] ps).map (.apply ·.operator) ++
          (program ++ ((Prefix.waiting [] [] ps).map Prefix.step ++ rest)))) := by
  have hcompletes := (h.inContext_append hright).2
  have hhigh : ∀ op ∈ (Prefix.waiting [] [] ps).map Prefix.operator, 13 ≤ op.priority := by
    intro op hop
    rcases List.mem_map.mp hop with ⟨p, _, rfl⟩
    exact p.le_priority
  have hprefixes : (ps.map (fun p => Token.operator p.operator)).foldl Yard.accept s.yard
      = ⟨Yard.sent ((Prefix.released [] ps).map Sign.operator) s.yard.output,
          ((Prefix.waiting [] [] ps).map Prefix.operator).map .operator ++ s.yard.stack,
          s.yard.stray⟩ :=
    Yard.foldl_accept_prefixes ps [] [] s.fits_left s.yard.output s.yard.stray
  -- The output is the only trace that the left part and the operand leave on the rest.
  have hframe : ∀ output : List Rpn,
      ((Token.inContextAfter (some .closing) s.right).foldl Yard.accept
        ⟨output, s.yard.stack, s.yard.stray⟩).result = s.after.map (output.reverse ++ ·) := by
    intro output
    have houtput := Yard.foldl_accept_output output
      (Token.inContextAfter (some .closing) s.right) ⟨[], s.yard.stack, s.yard.stray⟩
    rw [after, ← Yard.result_prefixed, ← houtput]
    rfl
  rw [inContext_filled s ps h hright, Yard.result_ofTokens, List.foldl_append, List.foldl_append,
    List.foldl_append, ← yard, hprefixes, h.foldl_accept,
    Yard.result_foldl_completed hcompletes hhigh, hframe]
  simp only [Yard.reverse_sent, List.reverse_append, List.reverse_reverse, List.map_map,
    List.append_assoc]
  rfl

theorem exists_after (s : Slot) {l : Token} (h : Token.goesOn l s.right = true) :
    ∃ rest, s.after = some rest := by
  have hright : ∀ l' ∈ [Token.variable "X"].getLast?, Token.goesOn l' s.right = true := by
    intro l' hl'
    rw [← Option.some.inj hl']
    exact Token.goesOn_variable h "X"
  -- Brackets that are closed around a variable are closed around any operand.
  have hclosed := s.closed
  have hfilled := s.result_filled [] (.variable "X") hright
  simp only [List.map_nil, List.nil_append, List.singleton_append] at hfilled
  rw [hfilled, Option.isSome_map] at hclosed
  exact Option.isSome_iff_exists.mp hclosed

end Slot

/-- Prefix operators apply to the operand after them, the last one first, exactly if
    all roots come before all signs. The steps `before` and `after` of the surroundings
    are the same whatever operators and operand stand there. If a sign comes before a
    root, some sign directly follows on the steps from the left: it is applied to an
    operand on its left, or misses one if there is none. -/
theorem prefixes_apply_iff (s : Slot) :
    ∃ before after : List Rpn, ∀ (ps : List Prefix) (operand : List Token)
      (program : List Rpn) (text : List Char), Operand operand program →
      (∀ l ∈ operand.getLast?, Token.goesOn l s.right = true) →
      (scan text).tokens = s.left ++ (ps.map Prefix.symbol ++ (operand ++ s.right)) →
        ((Rpn.ofTokens (tokenize text).tokens).1
            = some (before ++ (program ++ (ps.reverse.map Prefix.step ++ after)))
          ↔ Prefix.RootsFirst ps) ∧
        (¬ Prefix.RootsFirst ps → ∃ (sign : Sign) (rest : List Rpn), .sign sign ∈ ps ∧
          (Rpn.ofTokens (tokenize text).tokens).1
            = some (before ++ .apply sign.operator :: rest)) := by
  refine ⟨s.before, s.after.getD [], ?_⟩
  intro ps operand program text hoperand hright htext
  have hresult := s.result_filled ps hoperand hright
  have htokens : (tokenize text).tokens
      = inContext (s.left ++ (ps.map Prefix.symbol ++ (operand ++ s.right))) := by
    rw [← htext]
    rfl
  rcases hoperand.exists_getLast? with ⟨l, hlast, _, _⟩
  rcases s.exists_after (hright l hlast) with ⟨rest, hrest⟩
  rw [hrest, Option.map_some, ← htokens] at hresult
  rw [hresult, hrest, Option.getD_some]
  refine ⟨?_, ?_⟩
  · -- The surroundings are the same on both sides, so the steps between them decide.
    rw [Option.some.injEq, List.append_cancel_left_eq]
    exact Prefix.steps_eq_iff
  · intro hroots
    rcases Prefix.exists_released hroots with ⟨sign, released, hreleased, hmem⟩
    rw [hreleased]
    exact ⟨sign, _, hmem, rfl⟩

/-- In `$A*√-$B` both operators apply to the operand after them. In `$A*-√$B` the sign
    is applied to the operand on its left. -/
theorem prefixes_apply_iff_product :
    ∃ before after : List Rpn,
      (Rpn.ofTokens (tokenize "$A*√-$B".toList).tokens).1
          = some (before ++ .variable "B" :: Prefix.step (.sign .minus) ::
              Prefix.step (.root .square) :: after) ∧
        (Rpn.ofTokens (tokenize "$A*-√$B".toList).tokens).1
          ≠ some (before ++ .variable "B" :: Prefix.step (.root .square) ::
              Prefix.step (.sign .minus) :: after) ∧
        ∃ (sign : Sign) (rest : List Rpn), .sign sign ∈ [Prefix.sign .minus, .root .square] ∧
          (Rpn.ofTokens (tokenize "$A*-√$B".toList).tokens).1
            = some (before ++ .apply sign.operator :: rest) := by
  let s : Slot :=
    { left := [.variable "A", .operator (.binary .multiply)]
      right := []
      expects := fun t ht => .inr ⟨.multiply, (Option.some.inj ht).symm⟩
      closed := rfl }
  have hsign : ¬ Prefix.RootsFirst [.sign .minus, .root .square] := by
    intro hroots
    exact absurd (Prefix.released_of_rootsFirst hroots) (by decide)
  have hright : ∀ l ∈ [Token.variable "B"].getLast?, Token.goesOn l s.right = true :=
    fun _ _ => rfl
  rcases prefixes_apply_iff s with ⟨before, after, hiff⟩
  have hgood := hiff [.root .square, .sign .minus] _ _ "$A*√-$B".toList (.variable "B") hright
    (by decide +kernel)
  have hbad := hiff [.sign .minus, .root .square] _ _ "$A*-√$B".toList (.variable "B") hright
    (by decide +kernel)
  exact ⟨before, after, hgood.1.mpr ⟨[.square], [.minus], rfl⟩,
    fun happlied => hsign (hbad.1.mp happlied), hbad.2 hsign⟩

end TurtleGraphics
