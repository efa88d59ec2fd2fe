import TurtleGraphics.Proofs.Accounting
import TurtleGraphics.Proofs.Inheritance
import TurtleGraphics.Proofs.Ranges

/-!
# Runs Come to an End

Running a program ends because of its loops and its calls. The rounds of a loop are counted
out before the first of them begins, and the count is a number in range. Calls are refused
with a thousand frames in place, and each of them adds one. A budget can end a run before
that, but nothing depends on there being one.

That the steps of a run end is `Moment.reaches_runAll`, which holds of all commands. What is
left to show is that there is nothing in it but the two reasons above: that whenever a loop
begins its count is finite and within bounds, and that a call goes through only below a
thousand frames. Loops can come from the program or from procedures that earlier programs
have defined, so the turtle has to be one that programs can come to.

## Main definitions

* `Turtle.Reached`: A turtle that programs can come to.
* `Standard.clamped`: Commands in which every count is in range.
* `Moment.Budgeted`: A run that only its budget can stop.

## Theorems

* `Turtle.Reached.knows_clamped`: The procedures that such a turtle knows are clamped.
* `Moment.budgeted_after`: Only the budget can stop a run.
* `Moment.depth_lt_of_call`: A call goes through below a thousand frames only.
* `runAll_halts`: Runs come to an end, with any budget and without one.
-/

namespace TurtleGraphics

/-- A turtle that programs can come to from a new one: between programs, under another
    budget, or at any moment of a run. -/
inductive Turtle.Reached : Turtle → Prop where
  | fresh (size : Size) (budget : Nat) (log : Log) : Reached (.ofSize size budget log)
  | load {t : Turtle} (source : String) (h : Reached t) : Reached (t.load source).2
  | withBudget {t : Turtle} (budget : Option Nat) (h : Reached t) : Reached (t.withBudget budget)
  | after {t : Turtle} (source : String) (n : Nat) (h : Reached t) :
      Reached ((Moment.start (Program.parse source).value t).after n).turtle

/-- Loops of which every count is in range. -/
def Standard.clamped : Standard where
  command _ c := c.Clamped
  level _ := True
  procedure body := ∀ c ∈ body, c.Clamped
  rounds n := n ≤ 2147483647

theorem Standard.lasting_clamped : clamped.Lasting where
  level _ := trivial
  loop h := by
    cases h with
    | loop hcount hbody => exact hbody
  rounds t h := by
    cases h with
    | loop hcount hbody => exact Scalar.wholeBelow_le (Arg.inRange_eval hcount t).upper
  condition h := by
    cases h with
    | condition hbody => exact hbody
  define h := by
    cases h with
    | define hbody => exact hbody
  call h _ := h

/-- The procedures that such a turtle knows were read from a text. -/
theorem Turtle.Reached.knows_clamped {t : Turtle} (h : t.Reached) : Standard.clamped.Knows t := by
  induction h with
  | fresh size budget log =>
      rintro name p ⟨⟩
  | load source _ ih => exact ih
  | withBudget budget _ ih => exact ih
  | after source n _ ih =>
      exact (Standard.lasting_clamped.holds_after (fun _ => clamped_of_mem_parse) ih n).knows

namespace Moment

/-- A run under a budget, or under none, that only the budget can stop. -/
structure Budgeted (budget : Option Nat) (m : Moment) : Prop where
  same : m.turtle.budget = budget
  stopped : ∀ bound t, m.progress = .stopped bound t → budget = some bound

theorem budgeted_step {budget : Option Nat} {m : Moment} (h : m.Budgeted budget) :
    m.step.Budgeted budget := by
  have hnext := m.next_step
  generalize m.step = m' at hnext ⊢
  cases hnext with
  | done p => exact h
  | @paid t _ task rest hpay =>
      rcases Task.of_pay_running hpay with ⟨operations, rfl⟩
      exact ⟨(task.account_effect _).budget.trans h.same, nofun⟩
  | @refused t task bound rest hop hbudget hused =>
      refine ⟨h.same, ?_⟩
      rintro _ _ ⟨⟩
      exact h.same.symm.trans hbudget
  | dropped bound t task rest =>
      refine ⟨(task.account_drop t).budget.trans h.same, ?_⟩
      rintro _ _ ⟨⟩
      exact h.stopped bound t rfl

/-- Only the budget can stop a run. -/
theorem budgeted_after (commands : List Command) (t : Turtle) (n : Nat) :
    ((start commands t).after n).Budgeted t.budget := by
  have hstart : (start commands t).Budgeted t.budget := ⟨rfl, nofun⟩
  exact after_induction hstart (fun _ => budgeted_step) n

/-- A call that leaves anything to be done has gone through, and that is possible below a
    thousand frames only. -/
theorem depth_lt_of_call {m : Moment} {name : String} {args : List Scalar} {rest : List Task}
    (htasks : m.tasks = .call name args :: rest) (h : m.step.tasks ≠ rest) :
    m.turtle.scopes.depth < 1000 := by
  have hnext := m.next_step
  generalize m.step = m' at hnext h
  cases hnext with
  | done p => cases htasks
  | refused tail | dropped bound t task tail =>
      cases htasks
      exact absurd rfl h
  | @paid t u task tail hpay =>
      cases htasks
      -- With that many frames in place no limit that can be set lets the call through.
      have hscopes := Task.scopes_pay hpay
      have hmax := u.allowedDepth_le
      change t.scopes.depth < Turtle.maxDepth
      rw [← hscopes]
      by_contra hfull
      refine h ?_
      simp only [Task.effect]
      cases u.procedures.get? name with
      | none => rfl
      | some p =>
          have hrefused : ¬ u.scopes.depth < u.allowedDepth := by omega
          simp only [if_neg hrefused, List.nil_append]

end Moment

/-- Runs come to an end. A program that was read from a text, run by a turtle that programs
    can come to, under any budget or with the budget lifted, does what it does in finitely
    many steps, and nothing but the budget stops it. There are two reasons. A call goes
    through below a thousand frames only. And whenever a loop begins, its count is finite
    and in range, so that no loop has more than 2147483647 rounds. -/
theorem runAll_halts {t : Turtle} (ht : t.Reached) (source : String) (budget : Option Nat) :
    let commands := (Program.parse source).value
    let u := t.withBudget budget
    let m := Moment.start commands u
    (∃ last, m.after last = ⟨runAll commands u, []⟩) ∧
      (∀ bound v, runAll commands u = .stopped bound v → budget = some bound) ∧
      (budget = none → u = t.liftBudget ∧ (runAll commands u).isStopped = false) ∧
      ∀ n, (∀ name args rest, (m.after n).tasks = .call name args :: rest →
          (m.after (n + 1)).tasks ≠ rest → (m.after n).turtle.scopes.depth < 1000) ∧
        (∀ count body rest, (m.after n).tasks = .command (.loop count body) :: rest →
          ((m.after n).turtle.observe count.eval).1.InRange) ∧
        ∀ body left index, .rounds body left index ∈ (m.after n).tasks →
          index + left ≤ 2147483647 := by
  intro commands u m
  have hends : ∃ last, m.after last = ⟨runAll commands u, []⟩ := Moment.reaches_runAll commands u
  have hstopped : ∀ bound v, runAll commands u = .stopped bound v → budget = some bound := by
    rcases hends with ⟨last, hlast⟩
    have hbudgeted := Moment.budgeted_after commands u last
    rw [hlast] at hbudgeted
    exact hbudgeted.stopped
  refine ⟨hends, hstopped, ?_, fun n => ?_⟩
  · rintro rfl
    refine ⟨rfl, ?_⟩
    cases hrun : runAll commands u with
    | running v => rfl
    | stopped bound v => cases hstopped bound v hrun
  -- All loops come from this text or from one that was read before.
  have hholds : Standard.clamped.Holds (m.after n) :=
    Standard.lasting_clamped.holds_after (fun _ => clamped_of_mem_parse)
      (ht.withBudget budget).knows_clamped n
  refine ⟨fun name args rest htasks hthrough => ?_, fun count body rest htasks => ?_,
    fun body left index hmem => ?_⟩
  · rw [Moment.after_succ] at hthrough
    exact Moment.depth_lt_of_call htasks hthrough
  · have hmem : Task.command (.loop count body) ∈ (m.after n).tasks := by
      rw [htasks]
      exact List.mem_cons_self
    rcases Standard.exists_suits_of_mem hholds.meets hmem with ⟨level, hclamped⟩
    cases hclamped with
    | loop hcount hbody => exact Arg.inRange_eval hcount _
  · rcases Standard.exists_suits_of_mem hholds.meets hmem with ⟨level, -, -, hrounds⟩
    exact hrounds

namespace Moment

/-- Whether a loop comes next. -/
def atLoop (m : Moment) : Bool :=
  match m.tasks with
  | .command (.loop _ _) :: _ => true
  | _ => false

/-- Whether the rounds of a loop come next. -/
def atRounds (m : Moment) : Bool :=
  match m.tasks with
  | .rounds _ _ _ :: _ => true
  | _ => false

/-- Whether a call comes next, with `waiting` tasks behind it. -/
def atCall (m : Moment) (waiting : Nat) : Bool :=
  match m.tasks with
  | .call _ _ :: rest => rest.length == waiting
  | _ => false

end Moment

/-- A loop that calls a procedure from an earlier program, without a budget and with one
    that ends in the first round. -/
theorem runAll_halts_call :
    let first := (Program.parse "@F()\x7b\x7d").value
    let t := ((Moment.start first (Turtle.ofSize ⟨500.0, 500.0⟩ 100)).after 2).turtle
    let commands := (Program.parse "R(2)\x7b@F()\x7d").value
    let m := Moment.start commands t.liftBudget
    t.Reached ∧ (∃ last, m.after last = ⟨runAll commands t.liftBudget, []⟩) ∧
      (runAll commands t.liftBudget).isStopped = false ∧
      (∃ bound v, runAll commands (t.withBudget (some 2)) = .stopped bound v ∧
        some 2 = some bound) ∧
      (∃ count body rest, (m.after 0).tasks = .command (.loop count body) :: rest ∧
        ((m.after 0).turtle.observe count.eval).1.InRange) ∧
      (∃ body left index, .rounds body left index ∈ (m.after 1).tasks ∧
        index + left ≤ 2147483647) ∧
      ∃ name args rest, (m.after 4).tasks = .call name args :: rest ∧
        (m.after 5).tasks ≠ rest ∧ (m.after 4).turtle.scopes.depth < 1000 := by
  intro first t commands m
  have ht : t.Reached := .after _ 2 (.fresh _ _ _)
  rcases runAll_halts ht "R(2)\x7b@F()\x7d" none with ⟨hends, -, hlifted, hall⟩
  have hstopped : (runAll commands (t.withBudget (some 2))).isStopped = true := by decide +kernel
  have hloop : (m.after 0).atLoop = true := by decide +kernel
  have hrounds : (m.after 1).atRounds = true := by decide +kernel
  have hcall : (m.after 4).atCall 2 = true := by decide +kernel
  have hlength : (m.after 5).tasks.length = 3 := by decide +kernel
  refine ⟨ht, hends, (hlifted rfl).2, ?_, ?_, ?_, ?_⟩
  · rcases runAll_halts ht "R(2)\x7b@F()\x7d" (some 2) with ⟨-, hbound, -, -⟩
    cases hrun : runAll commands (t.withBudget (some 2)) with
    | running v =>
        rw [hrun] at hstopped
        cases hstopped
    | stopped bound v => exact ⟨bound, v, rfl, hbound bound v hrun⟩
  · unfold Moment.atLoop at hloop
    split at hloop
    next count body rest htasks =>
      exact ⟨count, body, rest, htasks, (hall 0).2.1 count body rest htasks⟩
    next => cases hloop
  · unfold Moment.atRounds at hrounds
    split at hrounds
    next body left index rest htasks =>
      have hmem : Task.rounds body left index ∈ (m.after 1).tasks := by
        rw [htasks]
        exact List.mem_cons_self
      exact ⟨body, left, index, hmem, (hall 1).2.2 body left index hmem⟩
    next => cases hrounds
  · unfold Moment.atCall at hcall
    split at hcall
    next name args rest htasks =>
      have hthrough : (m.after 5).tasks ≠ rest := by
        rintro rfl
        rw [hlength] at hcall
        cases hcall
      exact ⟨name, args, rest, htasks, hthrough, (hall 4).1 name args rest htasks hthrough⟩
    next => cases hcall

end TurtleGraphics
