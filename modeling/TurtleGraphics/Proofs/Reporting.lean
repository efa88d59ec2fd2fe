import TurtleGraphics.Proofs.Causes
import TurtleGraphics.Proofs.Stepwise
import TurtleGraphics.Proofs.Truncation

/-!
# What Is Reported on the Way

Reading a program and carrying out its commands report problems of many kinds, and
the run goes on after each of them. The one entry of the log that records a stop is
written at the end, by whoever started the run.

So every fault on the way is *passing*. For reading this is first shown of expressions:
tokens, programs in reverse Polish form, values known in advance. From there it goes
through parameters, statements and bodies as every comparison of findings does. For
running it is a statement about single tasks, since only they touch the log.

## Main definitions

* `Fault.Passing`: A fault after which the run goes on.
* `Eval.Passing`, `Noted.Passing`: Passing faults only are met.
* `Log.Passing`: A log that records no stop.

## Theorems

* `Expression.passing_parse`: Reading an expression meets passing faults only.
* `Program.passing_parse`: So does reading a program.
* `Task.passing_effect`: No task records a stop.
-/

namespace TurtleGraphics

/-- A fault after which the run goes on. -/
def Fault.Passing (f : Fault) : Prop := f.kind ≠ .limitExceeded

namespace Eval

variable {σ : Type} [Variables σ]

/-- A computation that meets passing faults only. -/
def Passing {α : Type} (x : Eval σ α) : Prop := ∀ s, ∀ f ∈ (x s).faults, f.Passing

theorem passing_evaluateFrom (program : List Rpn) (stack : List Scalar) :
    (evaluateFrom program stack : Eval σ (Option Scalar)).Passing := by
  induction program generalizing stack with
  | nil =>
      intro s f hf
      simp only [evaluateFrom, conclude] at hf
      split at hf
      · cases hf
      · split at hf
        · split at hf <;> simp_all [Fault.Passing, Fault.kind]
        · simp_all [Fault.Passing, Fault.kind]
      · simp_all [Fault.Passing, Fault.kind]
  | cons step rest ih =>
      intro s f hf
      cases step with
      | number v => exact ih (v :: stack) s f hf
      | «variable» name =>
          simp only [evaluateFrom] at hf
          rcases hread : Variables.read name s with ⟨_ | v, s'⟩
          · rw [hread] at hf
            rcases List.mem_cons.mp hf with rfl | hf
            · intro h
              cases h
            · exact ih (0.0 :: stack) s' f hf
          · rw [hread] at hf
            exact ih (v :: stack) s' f hf
      | apply op =>
          cases op with
          | unary op =>
              rcases stack with _ | ⟨a, stack⟩
              · rcases List.mem_singleton.mp hf with rfl
                intro h
                cases h
              · exact ih (op.apply a :: stack) s f hf
          | binary op =>
              rcases stack with _ | ⟨b, _ | ⟨a, stack⟩⟩
              · rcases List.mem_singleton.mp hf with rfl
                intro h
                cases h
              · rcases List.mem_singleton.mp hf with rfl
                intro h
                cases h
              · exact ih (op.apply a b :: stack) s f hf

theorem inherited_passing :
    Inherited (fun _ => True) fun (α : Type) (x : Eval σ α) => x.Passing where
  pure := fun _ _ _ hf => nomatch hf
  bind := by
    intro α β x f hx hf s fault hfault
    rcases List.mem_append.mp hfault with h | h
    · exact hx s fault h
    · exact hf (x s).value (x s).context fault h
  evaluate := fun program _ => passing_evaluateFrom program []

end Eval

theorem passing_scan (text : List Char) : ∀ f ∈ (scan text).faults, f.Passing := by
  -- A token that is found leaves the faults as they are.
  fun_induction scan text
  case case1 => exact nofun
  case case2 ih | case3 ih | case4 ih | case5 ih | case6 ih | case8 ih => exact ih
  case case7 ih | case9 ih => exact List.forall_mem_cons.mpr ⟨nofun, ih⟩

theorem passing_ofTokens (tokens : List Token) : ∀ f ∈ (Rpn.ofTokens tokens).2, f.Passing := by
  intro f hf
  have hstray : ∀ stray : Bool,
      ∀ g ∈ (if stray then [Fault.unmatchedClosing] else []), g.Passing := by
    intro stray g hg
    cases stray with
    | false => cases hg
    | true =>
        rcases List.mem_singleton.mp hg with rfl
        exact nofun
  simp only [Rpn.ofTokens] at hf
  split at hf
  · rcases List.mem_append.mp hf with hf | hf
    · exact hstray _ f hf
    · rcases List.mem_singleton.mp hf with rfl
      exact nofun
  · exact hstray _ f hf

/-- Reading an expression meets passing faults only. -/
theorem Expression.passing_parse (text : List Char) :
    ∀ f ∈ (Expression.parse text).2, f.Passing := by
  intro f hf
  have hscan : ∀ g ∈ (tokenize text).faults, g.Passing := passing_scan text
  have htokens := passing_ofTokens (tokenize text).tokens
  simp only [Expression.parse] at hf
  rcases hprogram : Rpn.ofTokens (tokenize text).tokens with ⟨_ | program, faults⟩
  · rw [hprogram] at hf htokens
    rcases List.mem_append.mp hf with h | h
    · exact hscan f h
    · exact htokens f h
  · rw [hprogram] at hf htokens
    simp only at hf
    split at hf
    · rcases List.mem_append.mp hf with h | h
      · exact hscan f h
      · exact htokens f h
    · rcases List.mem_append.mp hf with h | h
      · rcases List.mem_append.mp h with h | h
        · exact hscan f h
        · exact htokens f h
      · exact Eval.inherited_passing.evaluate program (fun _ _ => trivial) () f h

namespace Noted

/-- All problems met in finding the value are passing. -/
def Passing {α : Type} (x : Noted α) : Prop := ∀ f ∈ x.faults, f.fault.Passing

variable {α β : Type}

theorem Passing.bind {x : Noted α} {f : α → Noted β} (hx : x.Passing)
    (hf : (f x.value).Passing) : (x >>= f).Passing := by
  intro fault hfault
  rcases List.mem_append.mp hfault with h | h
  · exact hx fault h
  · exact hf fault h

theorem passing_traverse {f : α → Noted β} {xs : List α} (h : ∀ x ∈ xs, (f x).Passing) :
    (traverse f xs).Passing := by
  intro fault hfault
  rcases List.mem_flatMap.mp hfault with ⟨y, hy, hmem⟩
  rcases List.mem_map.mp hy with ⟨x, hx, rfl⟩
  exact h x hx fault hmem

theorem passing_singleton (a : α) {f : Fault} (h : f.Passing) (span : Span) :
    (Noted.mk a [⟨f, span⟩]).Passing := by
  intro g hg
  rcases List.mem_singleton.mp hg with rfl
  exact h

end Noted

theorem Param.passing_expression (p : Param) : p.expression.Passing := by
  intro f hf
  rcases List.mem_map.mp hf with ⟨g, hg, rfl⟩
  exact Expression.passing_parse p.text g hg

/-- Meeting passing faults only goes through the layers of the reader as any comparison
    of findings does; here both sides of the comparison have the property. -/
theorem congruence_passing : Noted.Congruence fun _ x y => x.Passing ∧ y.Passing where
  symm := And.symm
  trans := fun hx hy => ⟨hx.1, hy.2⟩
  pure := fun _ => ⟨nofun, nofun⟩
  bind := fun hx hf => ⟨hx.1.bind (hf _).1, hx.2.bind (hf _).2⟩
  traverse := by
    intro α β γ f g k hf xs
    refine ⟨Noted.passing_traverse fun a _ => (hf a).1, Noted.passing_traverse ?_⟩
    intro c hc
    rcases List.mem_map.mp hc with ⟨a, _, rfl⟩
    exact (hf a).2
  fault := fun a _ span span' hf =>
    ⟨Noted.passing_singleton a hf span, Noted.passing_singleton a hf span'⟩
  expression := fun p => ⟨p.passing_expression, p.unplaced.passing_expression⟩

/-- Reading a program meets passing faults only. -/
theorem Program.passing_parse (source : String) : (Program.parse source).Passing :=
  (congruence_passing.commandsAt _ _ _).1

namespace Log

/-- A log that records no stop. -/
def Passing (l : Log) : Prop := ∀ d ∈ l.entries.toList, d.kind ≠ .limitExceeded

theorem Passing.of_append {l l' : Log} (h : l.Passing) {added : List Diagnostic}
    (hadded : ∀ d ∈ added, d.kind ≠ .limitExceeded)
    (heq : l'.entries.toList = l.entries.toList ++ added) : l'.Passing := by
  intro d hd
  rw [heq] at hd
  exact (List.mem_append.mp hd).elim (h d) (hadded d)

theorem Passing.reportAll {l : Log} (h : l.Passing) {faults : List Fault}
    (hfaults : ∀ f ∈ faults, f.Passing) : (l.reportAll faults).Passing :=
  h.of_append (List.forall_mem_map.mpr hfaults) (toList_reportAll l faults)

theorem Passing.report {l : Log} (h : l.Passing) {f : Fault} (hf : f.Passing) :
    (l.report f).Passing :=
  h.reportAll (List.forall_mem_singleton.mpr hf)

theorem Passing.reportLocated {l : Log} (h : l.Passing) {faults : List LocatedFault}
    (hfaults : ∀ f ∈ faults, f.fault.Passing) : (l.reportLocated faults).Passing :=
  h.of_append (List.forall_mem_map.mpr hfaults) (toList_reportLocated l faults)

end Log

namespace Turtle

theorem passing_observe {α : Type} {x : Eval Turtle α} (hx : x.Reading) (hpassing : x.Passing)
    {t : Turtle} (h : t.log.Passing) : (t.observe x).2.log.Passing := by
  rcases observe_eq_of_reading hx t with ⟨r, hr⟩
  rw [hr]
  exact h.reportAll (hpassing t)

theorem passing_apply (a : Action) {t : Turtle} (h : t.log.Passing) :
    (a.apply t).log.Passing := by
  rcases (applied a t).log with hlog | hlog | hlog
  · rw [hlog]
    exact h
  · rw [hlog]
    exact h.report (by intro hkind; cases hkind)
  · rw [hlog]
    exact h.report (by intro hkind; cases hkind)

end Turtle

/-- No task records a stop. -/
theorem Task.passing_effect (task : Task) {t : Turtle} (h : t.log.Passing) :
    (task.effect t).1.log.Passing := by
  cases task with
  | command c =>
      cases c with
      | basic i =>
          exact Turtle.passing_observe (Eval.reading_resolve i)
            (Eval.inherited_passing.resolve i fun _ _ => trivial) h
      | loop count body =>
          exact Turtle.passing_observe (Eval.reading_arg count)
            (Eval.inherited_passing.arg count fun _ _ => trivial) h
      | condition test body =>
          exact Turtle.passing_observe (Eval.reading_arg test)
            (Eval.inherited_passing.arg test fun _ _ => trivial) h
      | define name params body => exact h
      | call name args =>
          exact Turtle.passing_observe (Eval.reading_args args)
            (Eval.inherited_passing.args args fun _ _ => trivial) h
  | act a => exact Turtle.passing_apply a h
  | call name args =>
      simp only [effect]
      cases t.procedures.get? name with
      | none => exact h.report nofun
      | some p =>
          simp only
          split <;> exact h
  | enter frame body => exact h
  | rounds body left index => cases left <;> exact h
  | leave => exact h

end TurtleGraphics
