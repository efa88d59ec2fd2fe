import Mathlib.Data.List.Forall2
import TurtleGraphics.Proofs.Inheritance

/-!
# Turtles That a Program Cannot Tell Apart

Two turtles can differ in something that a program has no way to find out. Then the program
does the same with both, and in the end they still differ in that and in nothing else. What
this asks of a relation between turtles is `Inseparable`: reading a variable gives the same
on both sides, and whatever can happen to a turtle keeps the relation.

The two runs go through the same tasks. So they are compared step by step, with the list of
tasks equal on both sides and the turtles related, and no induction over commands is
needed. A step in which the runs could part would have to come from a variable that reads
differently, or from a call that finds another procedure or another depth.

Some relations hold only as long as certain variables are not read. `Command.reads` are
the variables that a command reads, in its body and in the bodies of procedures that it
defines. A procedure can be called long after its definition, so what is known of the
variables of the program is carried along with `Standard.reading`.

## Main definitions

* `Command.reads`, `readsOf`: The variables that commands read.
* `Standard.reading`: Commands that read variables of a set only.
* `Progress.Related`, `Moment.Related`: Runs that come to related turtles.
* `Inseparable`: A relation that no program can see through.

## Theorems

* `Inseparable.observe`: Evaluation comes to the same value.
* `Inseparable.effect`: A task does the same on both sides.
* `Inseparable.related_step`, `Inseparable.related_after`: Runs stay related.
* `Inseparable.related_runAll`: So they come to related ends.
* `Inseparable.related_trace`: And they are related after each command.
-/

namespace TurtleGraphics

mutual

/-- The variables that a command reads, in its body as well. -/
def Command.reads : Command → List String
  | .basic i => i.reads
  | .loop count body => count.reads ++ readsOf body
  | .condition test body => test.reads ++ readsOf body
  | .define _ _ body => readsOf body
  | .call _ args => args.flatMap Arg.reads

/-- The variables that some commands read. -/
def readsOf : List Command → List String
  | [] => []
  | c :: rest => c.reads ++ readsOf rest

end

theorem forall_mem_readsOf {V : String → Prop} {commands : List Command} :
    (∀ name ∈ readsOf commands, V name) ↔ ∀ c ∈ commands, ∀ name ∈ c.reads, V name := by
  induction commands with
  | nil => simp [readsOf]
  | cons c rest ih => rw [readsOf, List.forall_mem_append, ih, List.forall_mem_cons]

/-- Commands that read variables of `V` only. -/
def Standard.reading (V : String → Prop) : Standard where
  command _ c := ∀ name ∈ c.reads, V name
  level _ := True
  procedure body := ∀ name ∈ readsOf body, V name
  rounds _ := True

theorem Standard.lasting_reading (V : String → Prop) : (reading V).Lasting where
  level _ := trivial
  loop h := by
    simp only [reading, Command.reads, List.forall_mem_append] at h
    exact forall_mem_readsOf.mp h.2
  rounds _ _ := trivial
  condition h := by
    simp only [reading, Command.reads, List.forall_mem_append] at h
    exact forall_mem_readsOf.mp h.2
  define h := by
    simp only [reading, Command.reads] at h
    exact h
  call h _ := forall_mem_readsOf.mp h

/-- Two runs that both go on or were both stopped at the same bound, with related turtles. -/
inductive Progress.Related (R : Turtle → Turtle → Prop) : Progress → Progress → Prop where
  | running {t u : Turtle} (h : R t u) : Related R (.running t) (.running u)
  | stopped (bound : Nat) {t u : Turtle} (h : R t u) :
      Related R (.stopped bound t) (.stopped bound u)

/-- Two runs that have the same still to do, with related turtles. -/
structure Moment.Related (R : Turtle → Turtle → Prop) (m m' : Moment) : Prop where
  tasks : m.tasks = m'.tasks
  progress : m.progress.Related R m'.progress

/-- A relation between turtles that no program can see through, as long as it reads
    variables of `V` only. -/
structure Inseparable (V : String → Prop) (R : Turtle → Turtle → Prop) : Prop where
  reads : Variables.AgreeOn V R
  log {t u : Turtle} (faults : List Fault) : R t u →
    R { t with log := t.log.reportAll faults } { u with log := u.log.reportAll faults }
  budget {t u : Turtle} : R t u → t.budget = u.budget
  operations {t u : Turtle} : R t u → t.operations = u.operations
  charged {t u : Turtle} : R t u →
    R { t with operations := t.operations + 1 } { u with operations := u.operations + 1 }
  apply {t u : Turtle} (a : Action) : R t u → R (a.apply t) (a.apply u)
  entered {t u : Turtle} (frame : Bindings) : R t u → R (t.entered frame) (u.entered frame)
  left {t u : Turtle} : R t u → R t.left u.left
  procedures {t u : Turtle} : R t u → t.procedures = u.procedures
  depth {t u : Turtle} : R t u → t.scopes.depth = u.scopes.depth
  limit {t u : Turtle} : R t u → t.limit = u.limit

namespace Inseparable

variable {V : String → Prop} {R : Turtle → Turtle → Prop}

theorem observe (hR : Inseparable V R) {α : Type} {x : Eval Turtle α} (hx : x.ReadsOnly V)
    {t u : Turtle} (h : R t u) :
    (t.observe x).1 = (u.observe x).1 ∧ R (t.observe x).2 (u.observe x).2 := by
  have hagrees := hx R hR.reads t u h
  refine ⟨hagrees.value, ?_⟩
  simp only [Turtle.observe, ← hagrees.faults]
  exact hR.log _ hagrees.context

/-- Evaluating the arguments of a command comes to the same, and the command asks for the
    same then. -/
theorem ofCommand (hR : Inseparable V R) {c : Command} (hc : ∀ name ∈ c.reads, V name)
    {t u : Turtle} (h : R t u) :
    R (Task.ofCommand c t).1 (Task.ofCommand c u).1 ∧
      (Task.ofCommand c t).2 = (Task.ofCommand c u).2 := by
  have hreads := Eval.inherited_readsOnly (σ := Turtle) V
  cases c with
  | basic i =>
      rw [Command.reads] at hc
      have hobserve := hR.observe (hreads.resolve i hc) h
      simp only [Task.ofCommand]
      exact ⟨hobserve.2, by rw [hobserve.1]⟩
  | loop count body =>
      rw [Command.reads, List.forall_mem_append] at hc
      have hobserve := hR.observe (hreads.arg count hc.1) h
      simp only [Task.ofCommand]
      exact ⟨hobserve.2, by rw [hobserve.1]⟩
  | condition test body =>
      rw [Command.reads, List.forall_mem_append] at hc
      have hobserve := hR.observe (hreads.arg test hc.1) h
      simp only [Task.ofCommand]
      exact ⟨hobserve.2, by rw [hobserve.1]⟩
  | define name params body => exact ⟨h, rfl⟩
  | call name args =>
      rw [Command.reads] at hc
      have hobserve := hR.observe (hreads.args args hc) h
      simp only [Task.ofCommand]
      exact ⟨hobserve.2, by rw [hobserve.1]⟩

/-- A task does the same on both sides, and leaves the same to be done. -/
theorem effect (hR : Inseparable V R) {level : Nat} {task : Task}
    (htask : (Standard.reading V).Suits level task) {t u : Turtle} (h : R t u) :
    R (task.effect t).1 (task.effect u).1 ∧ (task.effect t).2 = (task.effect u).2 := by
  cases task with
  | command c => exact hR.ofCommand htask h
  | act a => exact ⟨hR.apply a h, rfl⟩
  | call name args =>
      -- A call looks at the procedures, the frames and the limit.
      have hallowed : t.allowedDepth = u.allowedDepth := by
        rw [Turtle.allowedDepth, Turtle.allowedDepth, hR.limit h]
      simp only [Task.effect, ← hR.procedures h, ← hR.depth h, ← hallowed]
      cases t.procedures.get? name with
      | none => exact ⟨hR.log [.undefinedProcedure name] h, rfl⟩
      | some p =>
          by_cases hdepth : t.scopes.depth < t.allowedDepth
          · simp only [if_pos hdepth]
            exact ⟨h, trivial⟩
          · simp only [if_neg hdepth]
            exact ⟨h, trivial⟩
  | enter frame body => exact ⟨hR.entered frame h, rfl⟩
  | rounds body left index => cases left <;> exact ⟨h, rfl⟩
  | leave => exact ⟨hR.left h, rfl⟩

/-- A charge goes through on both sides or on neither. -/
theorem charge (hR : Inseparable V R) {t u : Turtle} (h : R t u) :
    t.charge.Related R u.charge := by
  have hbudget := hR.budget h
  have hoperations := hR.operations h
  cases ht : t.charge with
  | running t' =>
      rcases Turtle.of_charge_running ht with ⟨rfl, hleft⟩
      cases hu : u.charge with
      | running u' =>
          rcases Turtle.of_charge_running hu with ⟨rfl, -⟩
          exact .running (hR.charged h)
      | stopped bound u' =>
          rcases Turtle.of_charge_stopped hu with ⟨-, hbound, hused⟩
          have hlt := hleft bound (hbudget.trans hbound)
          omega
  | stopped bound t' =>
      rcases Turtle.of_charge_stopped ht with ⟨rfl, hbound, hused⟩
      cases hu : u.charge with
      | running u' =>
          rcases Turtle.of_charge_running hu with ⟨-, hleft⟩
          have hlt := hleft bound (hbudget.symm.trans hbound)
          omega
      | stopped bound' u' =>
          rcases Turtle.of_charge_stopped hu with ⟨rfl, hbound', -⟩
          cases hbound.symm.trans (hbudget.trans hbound')
          exact .stopped bound h

theorem pay (hR : Inseparable V R) (task : Task) {t u : Turtle} (h : R t u) :
    (task.pay t).Related R (task.pay u) := by
  unfold Task.pay
  split
  · exact hR.charge h
  · exact .running h

theorem drop (hR : Inseparable V R) (task : Task) {t u : Turtle} (h : R t u) :
    R (task.drop t) (task.drop u) := by
  cases task with
  | leave => exact hR.left h
  | command | act | call | enter | rounds => exact h

theorem related_step (hR : Inseparable V R) {m m' : Moment}
    (hm : (Standard.reading V).Holds m) (h : m.Related R m') : m.step.Related R m'.step := by
  rcases m with ⟨p, tasks⟩
  rcases m' with ⟨p', tasks'⟩
  rcases h with ⟨htasks, hprogress⟩
  simp only at htasks hprogress
  subst htasks
  cases tasks with
  | nil =>
      cases hprogress with
      | running h => exact ⟨rfl, .running h⟩
      | stopped bound h => exact ⟨rfl, .stopped bound h⟩
  | cons task rest =>
      cases hprogress with
      | stopped bound h => exact ⟨rfl, .stopped bound (hR.drop task h)⟩
      | @running t u h =>
          -- Either both can pay for the task or neither can.
          have hpay := hR.pay task h
          simp only [Moment.step]
          generalize task.pay t = q at hpay
          generalize task.pay u = q' at hpay
          cases hpay with
          | stopped bound h => exact ⟨rfl, .stopped bound h⟩
          | running h =>
              have heffect := hR.effect hm.meets.1 h
              exact ⟨congrArg (· ++ rest) heffect.2, .running heffect.1⟩

/-- Runs of the same commands by related turtles are related at every moment. -/
theorem related_after (hR : Inseparable V R) {commands : List Command}
    (hcommands : ∀ name ∈ readsOf commands, V name) {t u : Turtle}
    (ht : (Standard.reading V).Knows t) (h : R t u) (n : Nat) :
    ((Moment.start commands t).after n).Related R ((Moment.start commands u).after n) := by
  induction n with
  | zero => exact ⟨rfl, .running h⟩
  | succ n ih =>
      have hholds := (Standard.lasting_reading V).holds_after
        (forall_mem_readsOf.mp hcommands) ht n
      rw [Moment.after_succ, Moment.after_succ]
      exact hR.related_step hholds ih

/-- Runs of the same commands by related turtles come to related ends. -/
theorem related_runAll (hR : Inseparable V R) {commands : List Command}
    (hcommands : ∀ name ∈ readsOf commands, V name) {t u : Turtle}
    (ht : (Standard.reading V).Knows t) (h : R t u) :
    (runAll commands t).Related R (runAll commands u) := by
  rcases Moment.reaches_runAll commands t with ⟨n, hn⟩
  rcases Moment.reaches_runAll commands u with ⟨k, hk⟩
  -- Both have come to an end after `n + k` steps.
  have hrelated := hR.related_after hcommands ht h (n + k)
  rw [Moment.after_add, hn, Moment.after_of_done, Nat.add_comm, Moment.after_add, hk,
    Moment.after_of_done] at hrelated
  exact hrelated.progress

theorem knows_runAll {commands : List Command}
    (hcommands : ∀ name ∈ readsOf commands, V name) {t : Turtle}
    (ht : (Standard.reading V).Knows t) : (Standard.reading V).Knows (runAll commands t).turtle := by
  rcases Moment.reaches_runAll commands t with ⟨n, hn⟩
  have hholds := (Standard.lasting_reading V).holds_after
    (forall_mem_readsOf.mp hcommands) ht n
  rw [hn] at hholds
  exact hholds.knows

/-- Runs of the same commands by related turtles are related after each command. -/
theorem related_trace (hR : Inseparable V R) {commands : List Command}
    (hcommands : ∀ name ∈ readsOf commands, V name) {t u : Turtle}
    (ht : (Standard.reading V).Knows t) (h : R t u) :
    List.Forall₂ (Progress.Related R) (Turtle.trace commands t) (Turtle.trace commands u) := by
  induction commands generalizing t u with
  | nil => exact .nil
  | cons c rest ih =>
      rw [readsOf, List.forall_mem_append] at hcommands
      have hfirst : ∀ name ∈ readsOf [c], V name := by
        rw [readsOf, readsOf, List.append_nil]
        exact hcommands.1
      have hrelated := hR.related_runAll hfirst ht h
      have hknows := knows_runAll hfirst ht
      simp only [Turtle.trace]
      generalize runAll [c] t = p at hrelated hknows
      generalize runAll [c] u = q at hrelated
      cases hrelated with
      | running h => exact .cons (.running h) (ih hcommands.2 hknows h)
      | stopped bound h => exact .cons (.stopped bound h) .nil

end Inseparable

end TurtleGraphics
