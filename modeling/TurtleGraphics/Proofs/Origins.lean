import TurtleGraphics.Proofs.Folding
import TurtleGraphics.Proofs.Located
import TurtleGraphics.Proofs.Splitting
import TurtleGraphics.Proofs.Stray

/-!
# What Is Reported and Why

Each problem that reading a program reports has an origin in the text: a character that
begins no command, the brackets of a parameter list, a parameter, a statement as a whole or
a body. Here the origins are listed once, with what is true of the text where one of them is
met. What reading can and cannot report is then read off the list.

The list follows the way in which the text is read. `Expression.Reports` is about the text
of an expression, `Statement.Reports` about a statement without the statements in its body,
and `ReportedIn` about a text with all the bodies in it. Nothing is reported that is not on
the list (`reportedIn_of_mem_commandsAt`).

The brackets of parameters show what the list is good for. A list and the expressions in it
count the same brackets, the list to find its end and its commas, the expressions to find
their programs. The list comes first, and it never hands on a closing bracket too many
(`Cursor.matched_readParams`). So no expression of a program ever has one to report, and
where an expression has an opening bracket too many its list was not closed.

## Main definitions

* `Expression.Reports`: What can be wrong with the text of an expression.
* `Statement.Reports`, `Item.Reports`: What can be wrong with a statement by itself.
* `ReportedIn`: What can be wrong in a text.

## Theorems

* `Expression.reports_of_mem_parse`: What reading an expression reports.
* `Statement.reports_of_mem_command`: What reading a statement reports.
* `reportedIn_of_mem_commandsAt`: What reading a text reports.
* `ReportedIn.ne_unmatchedClosing`, `ReportedIn.exists_unclosed`: What is reported of brackets.
* `splitting_agrees`: Parameter lists and expressions agree on brackets.
-/

namespace TurtleGraphics

open Brackets

/-- What scanning reports is a dollar sign without a name, or a character that is neither
    blank nor part of any token. -/
theorem of_mem_faults_scan {text : List Char} {f : Fault} (h : f ∈ (scan text).faults) :
    f = .emptyIdentifier ∨ ∃ c, isBlank c = false ∧ f = .unknownToken c := by
  fun_induction scan text
  case case1 => cases h
  case case2 ih | case3 ih | case4 ih | case5 ih | case6 ih | case8 ih => exact ih h
  case case7 ih =>
      rcases List.mem_cons.mp h with rfl | h
      · exact .inl rfl
      · exact ih h
  case case9 c rest hblank _ _ _ _ _ ih =>
      rcases List.mem_cons.mp h with rfl | h
      · exact .inr ⟨c, Bool.eq_false_iff.mpr hblank, rfl⟩
      · exact ih h

/-- What evaluating a program reports: variables that have no value, an operator that lacks
    operands, or something about the result. -/
theorem of_mem_faults_evaluateFrom {σ : Type} [Variables σ] {program : List Rpn}
    {stack : List Scalar} {s : σ} {f : Fault} (h : f ∈ (evaluateFrom program stack s).faults) :
    (∃ name ∈ Rpn.reads program, f = .undefinedVariable name) ∨
      (∃ op : Operator, f = .missingOperands op.symbol) ∨
        f ∈ [.operatorExpected, .notNumber, .truncated] := by
  induction program generalizing stack s with
  | nil =>
      refine .inr (.inr ?_)
      replace h : f ∈ (conclude stack).2 := h
      rcases stack with _ | ⟨v, _ | ⟨w, stack⟩⟩
      · cases h
      · cases hfinite : v.isFinite with
        | true =>
            rw [conclude_of_finite hfinite] at h
            split at h
            · rw [List.mem_singleton.mp h]
              decide
            · cases h
        | false =>
            rw [conclude_of_not_finite hfinite] at h
            rw [List.mem_singleton.mp h]
            decide
      · rw [List.mem_singleton.mp h]
        decide
  | cons step rest ih =>
      cases step with
      | number v => exact ih h
      | «variable» name =>
          simp only [evaluateFrom] at h
          rcases hread : Variables.read name s with ⟨_ | v, s'⟩
          · rw [hread] at h
            rcases List.mem_cons.mp h with rfl | h
            · exact .inl ⟨name, List.mem_cons_self, rfl⟩
            · rcases ih h with ⟨n, hn, hf⟩ | hother
              · exact .inl ⟨n, List.mem_cons_of_mem _ hn, hf⟩
              · exact .inr hother
          · rw [hread] at h
            rcases ih h with ⟨n, hn, hf⟩ | hother
            · exact .inl ⟨n, List.mem_cons_of_mem _ hn, hf⟩
            · exact .inr hother
      | apply op =>
          by_cases hlength : stack.length < op.arity
          · rw [evaluateFrom_of_length_lt hlength] at h
            exact .inr (.inl ⟨op, List.mem_singleton.mp h⟩)
          · cases op with
            | unary op =>
                rcases stack with _ | ⟨a, stack⟩
                · exact absurd Nat.one_pos hlength
                · exact ih h
            | binary op =>
                rcases stack with _ | ⟨b, _ | ⟨a, stack⟩⟩
                · exact absurd Nat.two_pos hlength
                · exact absurd Nat.one_lt_two hlength
                · exact ih h

/-- What can be wrong with the text of an expression. An expression with variables is not
    evaluated when it is read, so no variable without a value can be met. -/
inductive Expression.Reports (text : List Char) : Fault → Prop where
  | emptyIdentifier : Reports text .emptyIdentifier
  | unknownToken {c : Char} (hc : isBlank c = false) : Reports text (.unknownToken c)
  | unmatchedClosing (h : round.Unopened text) : Reports text .unmatchedClosing
  | unmatchedOpening (h : round.Unclosed text) : Reports text .unmatchedOpening
  | missingOperands (op : Operator) : Reports text (.missingOperands op.symbol)
  | result {f : Fault} (hf : f ∈ [Fault.operatorExpected, .notNumber, .truncated]) :
      Reports text f

namespace Expression.Reports

variable {text : List Char}

theorem unopened (h : Reports text .unmatchedClosing) : round.Unopened text := by
  cases h with
  | unmatchedClosing h => exact h
  | result hf => exact absurd hf (by decide)

theorem unclosed (h : Reports text .unmatchedOpening) : round.Unclosed text := by
  cases h with
  | unmatchedOpening h => exact h
  | result hf => exact absurd hf (by decide)

end Expression.Reports

/-- A closing bracket is stray in the yard exactly if it has no partner in the text. -/
theorem Yard.stray_ofText_iff (text : List Char) :
    (ofText text).stray = true ↔ round.Unopened text := by
  have hlevel : ∀ depth, (tokenize text).tokens.foldl Token.brackets.level depth
      = text.foldl round.level depth := by
    intro depth
    rw [← foldl_level_scan]
    exact (Token.rewritten_inContextAfter none _).foldl_level depth
  rw [ofText, stray_foldl_accept_iff, unopened_iff_foldl, unopened_iff_foldl, hlevel, hlevel]

/-- Reading an expression reports nothing else. -/
theorem Expression.reports_of_mem_parse {text : List Char} {f : Fault}
    (h : f ∈ (parse text).2) : Reports text f := by
  rw [parse_eq] at h
  simp only [List.mem_append] at h
  rcases h with h | h | h
  · rcases of_mem_faults_scan h with rfl | ⟨c, hc, rfl⟩
    · exact .emptyIdentifier
    · exact .unknownToken hc
  · by_cases hstray : (Yard.ofText text).stray = true
    · rw [if_pos hstray, List.mem_singleton] at h
      rw [h]
      exact .unmatchedClosing ((Yard.stray_ofText_iff text).mp hstray)
    · rw [if_neg hstray] at h
      cases h
  · cases hresult : (Yard.ofText text).result with
    | none =>
        rw [hresult, ofProgram, List.mem_singleton] at h
        rw [h]
        exact .unmatchedOpening ((Yard.result_ofText_eq_none_iff text).mp hresult)
    | some program =>
        rw [hresult, ofProgram] at h
        cases hvariables : (scan text).tokens.any Token.isVariable with
        | true =>
            rw [hvariables, if_pos rfl] at h
            cases h
        | false =>
            rw [hvariables, if_neg Bool.false_ne_true] at h
            have hprogram : (Rpn.ofTokens (tokenize text).tokens).1 = some program := by
              rw [Yard.result_ofTokens]
              exact hresult
            have hnone : (tokenize text).tokens.any Token.isVariable = false :=
              (Token.rewritten_inContextAfter none _).any_isVariable.trans hvariables
            rcases of_mem_faults_evaluateFrom h with ⟨name, hname, -⟩ | ⟨op, rfl⟩ | hf
            · rw [Rpn.reads_ofTokens hprogram hnone] at hname
              cases hname
            · exact .missingOperands op
            · exact .result hf

namespace Noted

variable {α β : Type} {f : LocatedFault}

@[simp]
theorem mem_faults_bind {x : Noted α} {g : α → Noted β} :
    f ∈ (x >>= g).faults ↔ f ∈ x.faults ∨ f ∈ (g x.value).faults :=
  List.mem_append

@[simp]
theorem not_mem_faults_pure {a : α} : ¬ f ∈ (Pure.pure a : Noted α).faults := nofun

theorem mem_faults_traverse {g : α → Noted β} {xs : List α} :
    f ∈ (traverse g xs).faults ↔ ∃ x ∈ xs, f ∈ (g x).faults := by
  simp only [traverse, List.flatMap_map, List.mem_flatMap]

end Noted

/-- What can be wrong with a statement, apart from the statements in its body. -/
inductive Statement.Reports (s : Statement) : LocatedFault → Prop where
  /-- The parameter list is not closed, or not opened. -/
  | brackets {f : LocatedFault} (h : f ∈ s.params.bracketFaults s.span) : Reports s f
  | expression {p : Param} {f : Fault} (hp : p ∈ s.params.items)
      (hf : Expression.Reports p.text f) : Reports s ⟨f, p.span⟩
  | name {p : Param} (hp : p ∈ s.params.items) :
      Reports s ⟨.notIdentifier (String.ofList p.text), p.span⟩
  /-- Something is missing. -/
  | whole {f : Fault} (hf : f ∈ [Fault.bodyExpected, .procedureUnnamed, .valueUnset,
      .variableUnnamed, .unopened .curly]) : Reports s ⟨f, s.span⟩
  /-- The body is not closed. -/
  | body {b : Block} (hb : s.body = .block b) : Reports s ⟨.unclosed .curly, b.openSpan⟩

/-- What can be wrong with an item, apart from the statements in its body. -/
def Item.Reports (f : LocatedFault) : Item → Prop
  | .statement s => s.Reports f
  | .unknown c pos => f = ⟨.unknownCommand c, ⟨pos, pos + 1⟩⟩

namespace Statement

variable {s : Statement} {f : LocatedFault}

theorem reports_of_mem_expression {p : Param} (hp : p ∈ s.params.items)
    (h : f ∈ p.expression.faults) : s.Reports f := by
  rcases List.mem_map.mp h with ⟨g, hg, rfl⟩
  exact .expression hp (Expression.reports_of_mem_parse hg)

theorem reports_of_mem_firstExpression (h : f ∈ s.params.firstExpression.faults) :
    s.Reports f := by
  rw [Params.firstExpression] at h
  rcases hitems : s.params.items with _ | ⟨p, rest⟩
  · rw [hitems] at h
    cases h
  · rw [hitems] at h
    exact reports_of_mem_expression (hitems ▸ List.mem_cons_self) h

theorem reports_of_mem_firstArg {default : Scalar}
    (h : f ∈ (s.params.firstArg default).faults) : s.Reports f := by
  rw [Params.firstArg, Noted.mem_faults_bind] at h
  exact h.elim reports_of_mem_firstExpression fun h => absurd h Noted.not_mem_faults_pure

theorem reports_of_mem_args {default : Scalar} (h : f ∈ (s.params.args default).faults) :
    s.Reports f := by
  rcases Noted.mem_faults_traverse.mp h with ⟨p, hp, h⟩
  rw [Param.arg, Noted.mem_faults_bind] at h
  exact h.elim (reports_of_mem_expression hp) fun h => absurd h Noted.not_mem_faults_pure

theorem reports_of_mem_colorArgs (h : f ∈ s.params.colorArgs.faults) : s.Reports f := by
  rw [Params.colorArgs, Noted.mem_faults_bind] at h
  rcases h with h | h
  · rcases Noted.mem_faults_traverse.mp h with ⟨p, hp, h⟩
    exact reports_of_mem_expression hp h
  · cases h

theorem reports_of_mem_names (h : f ∈ s.params.names.faults) : s.Reports f := by
  rcases Noted.mem_faults_traverse.mp h with ⟨p, hp, h⟩
  unfold Param.name at h
  by_cases hname : isName p.text = true
  · rw [if_pos hname] at h
    split at h <;> cases h
  · rw [if_neg hname] at h
    rw [List.mem_singleton.mp h]
    exact .name hp

theorem reports_of_mem_instruction (h : f ∈ s.instruction.faults) : s.Reports f := by
  unfold instruction at h
  cases hcode : s.code with
  | turn =>
      simp only [hcode, Noted.mem_faults_bind, Noted.not_mem_faults_pure, or_false] at h
      exact reports_of_mem_firstExpression h
  | heading | step | width | limit =>
      simp only [hcode, Noted.mem_faults_bind, Noted.not_mem_faults_pure, or_false] at h
      exact reports_of_mem_firstArg h
  | move =>
      simp only [hcode, Noted.mem_faults_bind, Noted.not_mem_faults_pure, or_false] at h
      exact reports_of_mem_args h
  | color | background =>
      simp only [hcode, Noted.mem_faults_bind, Noted.not_mem_faults_pure, or_false] at h
      exact reports_of_mem_colorArgs h
  | _ =>
      rw [hcode] at h
      cases h

theorem reports_of_mem_refuse {g : Fault} (hg : g ∈ [Fault.bodyExpected, .procedureUnnamed,
    .valueUnset, .variableUnnamed, .unopened .curly]) (h : f ∈ (s.refuse g).faults) :
    s.Reports f := by
  rw [List.mem_singleton.mp h]
  exact .whole hg

theorem reports_of_mem_assignment (h : f ∈ s.assignment.faults) : s.Reports f := by
  rw [assignment, Noted.mem_faults_bind] at h
  rcases h with h | h
  · exact reports_of_mem_firstExpression h
  · cases hname : s.name with
    | none =>
        rw [hname] at h
        exact reports_of_mem_refuse (by decide) h
    | some name =>
        rw [hname] at h
        cases hvalue : s.params.firstExpression.value with
        | none =>
            rw [hvalue] at h
            exact reports_of_mem_refuse (by decide) h
        | some value =>
            rw [hvalue] at h
            cases h

theorem reports_of_mem_procedure {body : Option (List Command)}
    (h : f ∈ (s.procedure body).faults) : s.Reports f := by
  unfold procedure at h
  cases hname : s.name with
  | none =>
      rw [hname] at h
      exact reports_of_mem_refuse (by decide) h
  | some name =>
      rw [hname] at h
      cases body with
      | none => exact reports_of_mem_args (by simpa using h)
      | some body => exact reports_of_mem_names (by simpa using h)

/-- The body of a statement is not opened, or not closed, or it is reported in it. -/
theorem reports_of_mem_body {nested : Block → Noted (List Command)}
    (h : f ∈ (s.body.commands nested s.span).faults) :
    s.Reports f ∨ ∃ b, s.body = .block b ∧ f ∈ (nested b).faults := by
  cases hbody : s.body with
  | absent =>
      rw [hbody] at h
      cases h
  | unopened =>
      rw [hbody] at h
      rw [List.mem_singleton.mp h]
      exact .inl (.whole (by decide))
  | block b =>
      rw [hbody, Body.commands, Noted.mem_faults_bind, Noted.mem_faults_bind] at h
      rcases h with h | h | h
      · refine .inl ?_
        by_cases hclosed : b.closed = true
        · rw [if_pos hclosed] at h
          cases h
        · rw [if_neg hclosed] at h
          rw [List.mem_singleton.mp h]
          exact .body hbody
      · exact .inr ⟨b, rfl, h⟩
      · cases h

/-- Reading a statement reports what is wrong with it by itself, and what is wrong in its
    body. -/
theorem reports_of_mem_command {nested : Block → Noted (List Command)}
    (h : f ∈ (s.command nested).faults) :
    s.Reports f ∨ ∃ b, s.body = .block b ∧ f ∈ (nested b).faults := by
  rw [command, Noted.mem_faults_bind] at h
  rcases h with h | h
  · exact .inl (.brackets h)
  split at h
  · simp only [Noted.mem_faults_bind, Noted.not_mem_faults_pure, or_false] at h
    exact h.elim (fun h => .inl (reports_of_mem_firstArg h)) reports_of_mem_body
  · rw [Noted.mem_faults_bind, Noted.mem_faults_bind] at h
    rcases h with h | h | h
    · exact .inl (reports_of_mem_firstArg h)
    · exact reports_of_mem_body h
    · refine .inl ?_
      split at h
      · cases h
      · exact reports_of_mem_refuse (by decide) h
  · rw [Noted.mem_faults_bind] at h
    exact h.elim reports_of_mem_body fun h => .inl (reports_of_mem_procedure h)
  · exact .inl (reports_of_mem_assignment h)
  · simp only [Noted.mem_faults_bind, Noted.not_mem_faults_pure, or_false] at h
    exact .inl (reports_of_mem_instruction h)

end Statement

/-- What can be wrong in a text in which bodies may be nested `room` deep. -/
inductive ReportedIn : (room start : Nat) → List Char → LocatedFault → Prop where
  | item {room start : Nat} {text : List Char} {item : Item} {f : LocatedFault}
      (hitem : item ∈ statements start text) (hf : item.Reports f) : ReportedIn room start text f
  /-- A body that is not read. -/
  | tooDeep {start : Nat} {text : List Char} {s : Statement} {b : Block}
      (hs : Item.statement s ∈ statements start text) (hb : s.body = .block b) :
      ReportedIn 0 start text ⟨.nestedTooDeep, b.span⟩
  /-- Something in a body. -/
  | inside {room start : Nat} {text : List Char} {s : Statement} {b : Block} {f : LocatedFault}
      (hs : Item.statement s ∈ statements start text) (hb : s.body = .block b)
      (hf : ReportedIn room b.start b.text f) : ReportedIn (room + 1) start text f

theorem exists_of_mem_commandsOf {nested : Block → Noted (List Command)} {items : List Item}
    {f : LocatedFault} (h : f ∈ (commandsOf nested items).faults) :
    ∃ item ∈ items, item.Reports f ∨
      ∃ s b, item = .statement s ∧ s.body = .block b ∧ f ∈ (nested b).faults := by
  simp only [commandsOf, Noted.mem_faults_bind, Noted.not_mem_faults_pure, or_false] at h
  rcases Noted.mem_faults_traverse.mp h with ⟨item, hitem, h⟩
  refine ⟨item, hitem, ?_⟩
  cases item with
  | unknown c pos => exact .inl (List.mem_singleton.mp h)
  | statement s =>
      rcases Statement.reports_of_mem_command h with hf | ⟨b, hb, hf⟩
      · exact .inl hf
      · exact .inr ⟨s, b, rfl, hb, hf⟩

/-- Reading a text reports nothing else, by induction on how deep bodies may be nested. -/
theorem reportedIn_of_mem_commandsAt {room start : Nat} {text : List Char} {f : LocatedFault}
    (h : f ∈ (commandsAt room start text).faults) : ReportedIn room start text f := by
  induction room generalizing start text with
  | zero =>
      rw [commandsAt_eq] at h
      rcases exists_of_mem_commandsOf h with ⟨item, hitem, hf | ⟨s, b, rfl, hb, hf⟩⟩
      · exact .item hitem hf
      · rw [List.mem_singleton.mp hf]
        exact .tooDeep hitem hb
  | succ room ih =>
      rw [commandsAt_eq] at h
      rcases exists_of_mem_commandsOf h with ⟨item, hitem, hf | ⟨s, b, rfl, hb, hf⟩⟩
      · exact .item hitem hf
      · exact .inside hitem hb (ih hf)

/-- The brackets of a list are all that is reported of the list itself. -/
theorem Params.of_mem_bracketFaults {ps : Params} {span : Span} {f : LocatedFault}
    (h : f ∈ ps.bracketFaults span) : f.fault = .unopened .round ∨ f.fault = .unclosed .round := by
  unfold bracketFaults at h
  cases hending : ps.ending with
  | proper =>
      rw [hending] at h
      cases h
  | unopened =>
      rw [hending] at h
      rw [List.mem_singleton.mp h]
      exact .inl rfl
  | unclosed list =>
      rw [hending] at h
      rw [List.mem_singleton.mp h]
      exact .inr rfl

/-- Only a parameter can be reported as an expression. -/
theorem Statement.Reports.exists_param {s : Statement} {f : LocatedFault} (h : s.Reports f)
    (hf : f.fault.kind = .invalidExpression) :
    ∃ p ∈ s.params.items, Expression.Reports p.text f.fault := by
  cases h with
  | brackets h =>
      rcases Params.of_mem_bracketFaults h with h | h <;> rw [h] at hf <;> cases hf
  | expression hp hg => exact ⟨_, hp, hg⟩
  | whole hg =>
      have hwhole : ∀ g ∈ [Fault.bodyExpected, .procedureUnnamed, .valueUnset, .variableUnnamed,
          .unopened .curly], g.kind ≠ .invalidExpression := by decide
      exact absurd hf (hwhole _ hg)
  | name | body => cases hf

namespace ReportedIn

variable {room start : Nat} {text : List Char} {f : LocatedFault}

/-- No parameter list hands on a closing bracket too many. -/
theorem ne_unmatchedClosing (h : ReportedIn room start text f) : f.fault ≠ .unmatchedClosing := by
  intro hf
  induction h with
  | @item _ _ _ item _ hitem hreports =>
      cases item with
      | unknown c pos =>
          rw [hreports] at hf
          cases hf
      | statement s =>
          rcases hreports.exists_param (hf ▸ rfl) with ⟨p, hp, hreports⟩
          rw [hf] at hreports
          exact (matched_of_mem_statements hitem).closing p hp hreports.unopened
  | tooDeep => cases hf
  | inside _ _ _ ih => exact ih hf

/-- An expression with an opening bracket too many stands in a list that was not closed,
    and that has been reported as well. -/
theorem exists_unclosed (h : ReportedIn room start text f) (hf : f.fault = .unmatchedOpening) :
    ∃ g ∈ (commandsAt room start text).faults, g.fault = .unclosed .round := by
  induction h with
  | @item room start text item _ hitem hreports =>
      cases item with
      | unknown c pos =>
          rw [hreports] at hf
          cases hf
      | statement s =>
          rcases hreports.exists_param (hf ▸ rfl) with ⟨p, hp, hreports⟩
          rw [hf] at hreports
          rcases (matched_of_mem_statements hitem).opening p hp hreports.unclosed with
            ⟨-, list, hending⟩
          have hlist : ⟨.unclosed .round, list⟩ ∈ s.params.bracketFaults s.span := by
            rw [Params.bracketFaults, hending]
            exact List.mem_singleton_self _
          refine ⟨⟨.unclosed .round, list⟩, ?_, rfl⟩
          rw [commandsAt_eq]
          refine (infix_faults_commandsOf hitem).subset ?_
          exact Noted.mem_faults_bind.mpr (.inl hlist)
  | tooDeep => cases hf
  | @inside room start text s b _ hs hb _ ih =>
      -- What is reported in a body is reported in the text around it.
      rcases ih hf with ⟨g, hg, hfault⟩
      have hbody : BodyOf (room + 1) start text room b := .here hs hb
      exact ⟨g, hbody.faults_infix.subset hg, hfault⟩

end ReportedIn

/-- A text that begins differently is a different text. -/
theorem append_ne_of_not_isPrefixOf {first text : String}
    (h : first.toList.isPrefixOf text.toList = false) (rest : String) : first ++ rest ≠ text := by
  rintro rfl
  rw [String.toList_append, List.isPrefixOf_iff_prefix.mpr (List.prefix_append _ _)] at h
  cases h

/-- No other problem is worded like a bracket of an expression without a partner. -/
theorem Fault.eq_of_message_eq {f g : Fault} (hg : g = .unmatchedClosing ∨ g = .unmatchedOpening)
    (h : f.message = g.message) : f = g := by
  rcases hg with rfl | rfl <;> cases f with
  | unopened d | unclosed d => cases d <;> exact absurd h (by decide +kernel)
  | unknownCommand | notIdentifier | unknownToken | missingOperands | undefinedVariable
  | undefinedProcedure | limitExceeded =>
      exact absurd h (append_ne_of_not_isPrefixOf (by decide +kernel) _)
  | _ => first | rfl | exact absurd h (by decide +kernel)

theorem Fault.message_unclosed_round :
    (Fault.unclosed .round).message = "Enclosing ) not found" := by
  decide +kernel

/-- A list that is not closed is reported wherever it stands. -/
theorem Params.exists_mem_bracketFaults {ps : Params} {list : Span}
    (h : ps.ending = .unclosed list) (span : Span) :
    ∃ f ∈ ps.bracketFaults span, f.report.message = "Enclosing ) not found" := by
  refine ⟨⟨.unclosed .round, list⟩, ?_, Fault.message_unclosed_round⟩
  rw [bracketFaults, h]
  exact List.mem_singleton_self _

/-- Parameter lists and expressions agree on brackets. Wherever a list is read, its
    parameters stand in what was read, one behind the other with something between them, and
    each of them is what stands at its place without white space. None of them has a closing
    bracket without a partner, and only the last one of a list that is reported as not closed
    has an opening bracket without a partner. Therefore no program is reported to have an
    expression with a closing bracket too many, and one that is reported to have an expression
    with an opening bracket too many is reported to have a list that is not closed. -/
theorem splitting_agrees :
    (∀ (text : List Char) (pos : Nat),
        let c : Cursor := ⟨pos, text.drop pos⟩
        let r := c.readParams
        c.Proceeds r.2 ∧
          (r.1.items.Pairwise fun p q => p.span.stop < q.span.start) ∧
          ∀ p ∈ r.1.items, p.span.Inside pos r.2.pos ∧ p.text = Text.trim (p.span.slice text) ∧
            ¬ round.Unopened p.text ∧
            (round.Unclosed p.text → r.1.items.getLast? = some p ∧
              ∀ span, ∃ f ∈ r.1.bracketFaults span,
                f.report.message = "Enclosing ) not found")) ∧
      ∀ source : String,
        let log := (Program.parse source).faults.map LocatedFault.report
        (∀ d ∈ log, d.message ≠ "Unmatched ) in expression") ∧
          ((∃ d ∈ log, d.message = "Unmatched ( in expression") →
            ∃ d ∈ log, d.message = "Enclosing ) not found") := by
  refine ⟨fun text pos => ?_, fun source => ⟨?_, ?_⟩⟩
  · intro c r
    refine ⟨c.proceeds_readParams, c.pairwise_readParams, fun p hp => ?_⟩
    have hmatched := c.matched_readParams
    refine ⟨c.placed_readParams.items p hp, Cursor.slice_of_mem_readParams hp,
      hmatched.closing p hp, fun hunclosed => ?_⟩
    rcases hmatched.opening p hp hunclosed with ⟨hlast, list, hending⟩
    exact ⟨hlast, Params.exists_mem_bracketFaults hending⟩
  · refine List.forall_mem_map.mpr fun f hf hmessage => ?_
    have hfault : f.fault = .unmatchedClosing := Fault.eq_of_message_eq (.inl rfl) hmessage
    exact (reportedIn_of_mem_commandsAt hf).ne_unmatchedClosing hfault
  · rintro ⟨d, hd, hmessage⟩
    rcases List.mem_map.mp hd with ⟨f, hf, rfl⟩
    have hfault : f.fault = .unmatchedOpening := Fault.eq_of_message_eq (.inr rfl) hmessage
    rcases (reportedIn_of_mem_commandsAt hf).exists_unclosed hfault with ⟨g, hg, hunclosed⟩
    refine ⟨g.report, List.mem_map.mpr ⟨g, hg, rfl⟩, ?_⟩
    exact (congrArg Fault.message hunclosed).trans Fault.message_unclosed_round

/-- A list of two parameters that is not closed: the second one keeps its open bracket. -/
theorem splitting_agrees_open :
    let text := "D(1,2+(3".toList
    let r := Cursor.readParams ⟨1, text.drop 1⟩
    (∃ p, r.1.items.getLast? = some p ∧ p.text = "2+(3".toList ∧ p.span.slice text = p.text) ∧
      (∃ d ∈ (Program.parse "D(1,2+(3").faults.map LocatedFault.report,
        d.message = "Enclosing ) not found") := by
  intro text r
  have hitems : r.1.items = [⟨['1'], ⟨2, 3⟩⟩, ⟨"2+(3".toList, ⟨4, 8⟩⟩] := by
    rfl
  have hfaults : (Program.parse "D(1,2+(3").faults
      = [⟨.unclosed .round, ⟨1, 8⟩⟩, ⟨.unmatchedOpening, ⟨4, 8⟩⟩] := by
    decide +kernel
  rcases splitting_agrees with ⟨hlists, hsources⟩
  have hlast := (hlists text 1).2.2 ⟨"2+(3".toList, ⟨4, 8⟩⟩ (by rw [hitems]; simp)
  refine ⟨⟨_, (hlast.2.2.2 (by decide)).1, rfl, rfl⟩, (hsources _).2 ?_⟩
  rw [hfaults]
  exact ⟨_, List.mem_cons_of_mem _ List.mem_cons_self, rfl⟩

end TurtleGraphics
