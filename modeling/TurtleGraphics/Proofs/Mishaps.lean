import TurtleGraphics.Proofs.Accounting
import TurtleGraphics.Proofs.Everywhere
import TurtleGraphics.Proofs.Inheritance
import TurtleGraphics.Proofs.Origins

/-!
# What Goes Wrong While a Program Runs

Each entry in the log of a run has an origin. Those that were there when the run began come
from reading the program. The others are listed here: an argument of a command that could
not be evaluated as it stands, a call of a procedure that is not there, a pose that could not
be saved or restored, and at last the stop of the run.

The commands that are evaluated are commands of the program, however they came to be run. So
what is known of all commands of a program is known of the commands that are behind its log
(`of_mem_log_run`). A call is a command before it is a task, and by then its arguments are
gone. That it once was a command is carried along from step to step.

## Main definitions

* `Eval.Mishap`: What evaluating an expression can report.
* `Command.argReads`: The variables that the arguments of a command read.
* `Mishap`: What running can report, given something that is known of all commands.
* `Standard.everywhere`: Programs with something that is known of all commands.

## Theorems

* `Eval.inherited_mishap`: Evaluation reports nothing else.
* `Task.mishap_effect`: Tasks report nothing else.
* `Moment.explained_step`, `Moment.explained_after`: The log has an explanation at every moment.
* `of_mem_log_run`: Where the entries of a log come from.
-/

namespace TurtleGraphics

/-- What evaluating an expression can report, if it reads variables of `V` only. -/
inductive Eval.Mishap (V : String → Prop) : Fault → Prop where
  | undefinedVariable {name : String} (h : V name) : Mishap V (.undefinedVariable name)
  | missingOperands (op : Operator) : Mishap V (.missingOperands op.symbol)
  | result {f : Fault} (hf : f ∈ [Fault.operatorExpected, .notNumber, .truncated]) : Mishap V f

/-- Evaluation reports nothing else. -/
theorem Eval.inherited_mishap {σ : Type} [Variables σ] (V : String → Prop) :
    Inherited V fun (α : Type) (x : Eval σ α) => ∀ s, ∀ f ∈ (x s).faults, Mishap V f where
  pure := fun _ _ _ hf => nomatch hf
  bind := by
    intro α β x g hx hg s f hf
    rcases List.mem_append.mp hf with hf | hf
    · exact hx s f hf
    · exact hg (x s).value (x s).context f hf
  evaluate := by
    intro program hV s f hf
    rcases of_mem_faults_evaluateFrom hf with ⟨name, hname, rfl⟩ | ⟨op, rfl⟩ | hf
    · exact .undefinedVariable (hV name hname)
    · exact .missingOperands op
    · exact .result hf

/-- The variables that the arguments of a command read, the commands inside of it apart. -/
def Command.argReads : Command → List String
  | .basic i => i.reads
  | .loop count _ => count.reads
  | .condition test _ => test.reads
  | .define _ _ _ => []
  | .call _ args => args.flatMap Arg.reads

/-- What running can report, if something is known of all commands that are run. -/
inductive Mishap (P : Command → Prop) : Fault → Prop where
  /-- An argument was evaluated. -/
  | argument {c : Command} {f : Fault} (hc : P c) (h : Eval.Mishap (· ∈ c.argReads) f) : Mishap P f
  /-- A procedure was called that is not there. -/
  | call {name : String} {args : List Arg} (hc : P (.call name args)) :
      Mishap P (.undefinedProcedure name)
  | stackFull : Mishap P .stackFull
  | stackEmpty : Mishap P .stackEmpty

/-- Something is known of all commands, wherever they stand. -/
def Standard.everywhere (P : Command → Prop) : Standard where
  command _ c := c.Everywhere P
  level _ := True
  procedure body := ∀ c ∈ body, c.Everywhere P
  rounds _ := True

theorem Standard.lasting_everywhere (P : Command → Prop) : (everywhere P).Lasting where
  level _ := trivial
  loop h := h.inside
  rounds _ _ := trivial
  condition h := h.inside
  define h := h.inside
  call h _ := h

variable {P : Command → Prop}

theorem Turtle.mishap_observe {α : Type} {x : Eval Turtle α} {V : String → Prop}
    (hx : x.Reading) (h : ∀ s, ∀ f ∈ (x s).faults, Eval.Mishap V f) (t : Turtle) :
    ∃ faults, (t.observe x).2.log = t.log.reportAll faults ∧ ∀ f ∈ faults, Eval.Mishap V f := by
  rcases observe_eq_of_reading hx t with ⟨r, hr⟩
  rw [hr]
  exact ⟨_, rfl, h t⟩

namespace Task

/-- The evaluation of the arguments is all that a command by itself reports. -/
theorem mishap_ofCommand (c : Command) (t : Turtle) :
    ∃ faults, (ofCommand c t).1.log = t.log.reportAll faults ∧
      ∀ f ∈ faults, Eval.Mishap (· ∈ c.argReads) f := by
  have hmishap := Eval.inherited_mishap (σ := Turtle) (· ∈ c.argReads)
  cases c with
  | basic i =>
      exact t.mishap_observe (Eval.reading_resolve i) (hmishap.resolve i fun _ => id)
  | loop count body =>
      exact t.mishap_observe (Eval.reading_arg count) (hmishap.arg count fun _ => id)
  | condition test body =>
      exact t.mishap_observe (Eval.reading_arg test) (hmishap.arg test fun _ => id)
  | define name params body => exact ⟨[], rfl, nofun⟩
  | call name args =>
      exact t.mishap_observe (Eval.reading_args args) (hmishap.args args fun _ => id)

/-- What a task adds to the log is a mishap. Of a call it has to be known that it was a
    command. -/
theorem mishap_effect {task : Task} {level : Nat} (h : (Standard.everywhere P).Suits level task)
    (hcall : ∀ name args, task = .call name args → ∃ as, P (.call name as)) (t : Turtle) :
    ∃ faults, (task.effect t).1.log = t.log.reportAll faults ∧ ∀ f ∈ faults, Mishap P f := by
  have hnone : ∃ faults, t.log = t.log.reportAll faults ∧ ∀ f ∈ faults, Mishap P f :=
    ⟨[], rfl, nofun⟩
  cases task with
  | command c =>
      rcases mishap_ofCommand c t with ⟨faults, hlog, hfaults⟩
      exact ⟨faults, hlog, fun f hf => .argument h.here (hfaults f hf)⟩
  | act a =>
      rcases (Turtle.applied a t).log with hlog | hlog | hlog
      · exact ⟨[], hlog, nofun⟩
      · exact ⟨[.stackFull], hlog, List.forall_mem_singleton.mpr .stackFull⟩
      · exact ⟨[.stackEmpty], hlog, List.forall_mem_singleton.mpr .stackEmpty⟩
  | call name args =>
      rcases hcall name args rfl with ⟨as, has⟩
      simp only [effect]
      cases t.procedures.get? name with
      | none =>
          exact ⟨[.undefinedProcedure name], rfl, List.forall_mem_singleton.mpr (.call has)⟩
      | some p =>
          simp only [apply_ite Prod.fst, ite_self]
          exact hnone
  | enter frame body => exact hnone
  | rounds body left index => cases left <;> exact hnone
  | leave => exact hnone

/-- Only a command that is a call leaves a call to be done. -/
theorem of_call_mem_effect {task : Task} {t : Turtle} {name : String} {args : List Scalar}
    (h : .call name args ∈ (task.effect t).2) : ∃ as, task = .command (.call name as) := by
  cases task with
  | command c =>
      cases c with
      | basic | loop | define =>
          cases List.mem_singleton.mp h
      | condition test body =>
          simp only [effect, ofCommand] at h
          split at h
          · cases h
          · rcases List.mem_map.mp h with ⟨c, -, hc⟩
            cases hc
      | call name' as =>
          cases List.mem_singleton.mp h
          exact ⟨as, rfl⟩
  | act a => cases h
  | call name' args' =>
      simp only [effect] at h
      split at h
      · cases h
      · split at h
        · cases List.mem_singleton.mp h
        · cases h
  | enter frame body =>
      rcases List.mem_append.mp h with h | h
      · rcases List.mem_map.mp h with ⟨c, -, hc⟩
        cases hc
      · cases List.mem_singleton.mp h
  | rounds body left index =>
      cases left with
      | zero => cases h
      | succ left =>
          rcases List.mem_cons.mp h with h | h
          · cases h
          · cases List.mem_singleton.mp h
  | leave => cases h

end Task

namespace Moment

/-- What is in the log at a moment was known before or is a mishap, and the calls that wait
    were commands. -/
structure Explained (P : Command → Prop) (known : List Diagnostic) (m : Moment) : Prop where
  log : ∀ d ∈ m.turtle.log.entries.toList, d ∈ known ∨ ∃ f, Mishap P f ∧ d = f.report
  calls : ∀ name args, .call name args ∈ m.tasks → ∃ as, P (.call name as)

theorem explained_step {known : List Diagnostic} {m : Moment}
    (hholds : (Standard.everywhere P).Holds m) (h : m.Explained P known) :
    m.step.Explained P known := by
  rcases h with ⟨hlog, hcalls⟩
  have hmeets := hholds.meets
  have hnext := m.next_step
  generalize m.step = m' at hnext ⊢
  cases hnext with
  | done p => exact ⟨hlog, hcalls⟩
  | refused rest =>
      exact ⟨hlog, fun name args hmem => hcalls name args (List.mem_cons_of_mem _ hmem)⟩
  | dropped bound t task rest =>
      -- A task that is dropped takes a frame away at most, and that is not reported.
      refine ⟨?_, fun name args hmem => hcalls name args (List.mem_cons_of_mem _ hmem)⟩
      cases task <;> exact hlog
  | @paid t u task rest hpay =>
      rcases Task.of_pay_running hpay with ⟨operations, rfl⟩
      have hcall : ∀ name args, task = .call name args → ∃ as, P (.call name as) := by
        rintro name args rfl
        exact hcalls name args List.mem_cons_self
      rcases Task.mishap_effect hmeets.1 hcall { t with operations } with ⟨faults, hadded, hfaults⟩
      refine ⟨fun d hd => ?_, fun name args hmem => ?_⟩
      · change d ∈ (task.effect { t with operations }).1.log.entries.toList at hd
        rw [hadded, Log.toList_reportAll] at hd
        rcases List.mem_append.mp hd with hd | hd
        · exact hlog d hd
        · rcases List.mem_map.mp hd with ⟨f, hf, rfl⟩
          exact .inr ⟨f, hfaults f hf, rfl⟩
      · rcases List.mem_append.mp hmem with hmem | hmem
        · -- A call that the task leaves was a command until now.
          rcases Task.of_call_mem_effect hmem with ⟨as, rfl⟩
          exact ⟨as, hmeets.1.here⟩
        · exact hcalls name args (List.mem_cons_of_mem _ hmem)

/-- The log has an explanation at every moment of a run. -/
theorem explained_after {commands : List Command} {t : Turtle}
    (hcommands : ∀ c ∈ commands, c.Everywhere P) (hknows : (Standard.everywhere P).Knows t)
    (n : Nat) : ((start commands t).after n).Explained P t.log.entries.toList := by
  induction n with
  | zero =>
      refine ⟨fun d hd => .inl hd, fun name args hmem => ?_⟩
      rcases List.mem_map.mp hmem with ⟨c, -, hc⟩
      cases hc
  | succ n ih =>
      rw [after_succ]
      exact explained_step ((Standard.lasting_everywhere P).holds_after hcommands hknows n) ih

end Moment

/-- Each entry in the log of a run comes from reading the program, from running its commands
    or from the stop at the end. -/
theorem of_mem_log_run {o : Options} {source : String}
    (hP : ∀ c ∈ (Program.parse source).value, c.Everywhere P) {d : Diagnostic}
    (hd : d ∈ (run o source).log.entries.toList) :
    (∃ f ∈ (Program.parse source).faults, d = f.report) ∨ (∃ f, Mishap P f ∧ d = f.report) ∨
      ∃ bound, d = (Fault.limitExceeded bound).report := by
  rcases Moment.reaches_runProgram o source with ⟨last, hlast⟩
  have hend : ((Moment.ofProgram o source).after last).Explained P
      (startTurtle o source).log.entries.toList := by
    refine Moment.explained_after hP ?_ last
    rintro name p ⟨⟩
  rw [hlast] at hend
  have hstart : ∀ d ∈ (startTurtle o source).log.entries.toList,
      ∃ f ∈ (Program.parse source).faults, d = f.report := by
    intro d hd
    change d ∈ (({} : Log).reportLocated (Program.parse source).faults).entries.toList at hd
    rw [Log.toList_reportLocated] at hd
    rcases List.mem_map.mp hd with ⟨f, hf, rfl⟩
    exact ⟨f, hf, rfl⟩
  have hlog : ∀ d ∈ (runProgram o source).turtle.log.entries.toList,
      (∃ f ∈ (Program.parse source).faults, d = f.report) ∨ ∃ f, Mishap P f ∧ d = f.report :=
    fun d hd => (hend.log d hd).imp_left (hstart d)
  rw [(run_eq_settled o source).1] at hd
  cases hp : runProgram o source with
  | running t =>
      rw [hp] at hd hlog
      exact (hlog d hd).imp_right .inl
  | stopped bound t =>
      rw [hp] at hd hlog
      change d ∈ (t.log.report (.limitExceeded bound)).entries.toList at hd
      rw [Log.toList_report] at hd
      rcases List.mem_append.mp hd with hd | hd
      · exact (hlog d hd).imp_right .inl
      · exact .inr (.inr ⟨bound, List.mem_singleton.mp hd⟩)

end TurtleGraphics
