import TurtleGraphics.Proofs.Inheritance
import TurtleGraphics.Proofs.Rounding
import TurtleGraphics.Proofs.Truncation

/-!
# Nothing Happens Without a Budget

Once a turtle has used up its budget nothing can be done with it. Each operation is charged
for before it touches anything, so the first one that is attempted stops the run and leaves
no trace. What is free goes on until then. Arguments are evaluated, which draws random
numbers and reports problems, and loops and conditions are looked at.

So a run of an exhausted turtle need not be stopped. A loop without a first round asks for no
operation, and neither does a condition, except for what is in its body. `allIdle` says of a
list of commands that it gets through in this way. It can be computed, and it is what decides
whether the run is stopped.

The scope chain is the delicate part, as it is also changed by tasks that are free: frames
are taken away without a charge. But a frame can only be put on top by an operation. Hence
there is never one to be left, and that is the invariant `Moment.Frozen` carries along.

## Main definitions

* `Turtle.Exhausted`: Nothing is left of the budget.
* `Turtle.FrozenTo`: All is as it was but for the random numbers and the log.
* `Moment.Frozen`: A run of an exhausted turtle on its way.
* `Command.idle`, `allIdle`: Commands that ask for no operation.

## Theorems

* `Moment.frozen_step`: A step of an exhausted turtle touches random numbers and the log only.
* `isStopped_runAll`: An exhausted turtle is stopped by commands that are not all idle.
* `exhausted_freezes`: An exhausted turtle stays as it is.
-/

namespace TurtleGraphics

namespace Turtle

/-- A turtle that has a budget, and nothing is left of it. -/
def Exhausted (t : Turtle) : Prop := ∃ bound, t.budget = some bound ∧ bound ≤ t.operations

/-- The turtle `u` is `t` but for its random numbers and for problems that were reported. -/
def FrozenTo (t u : Turtle) : Prop :=
  ∃ random faults, u = { t with random, log := t.log.reportAll faults }

theorem FrozenTo.refl (t : Turtle) : t.FrozenTo t := ⟨t.random, [], rfl⟩

theorem FrozenTo.trans {t u v : Turtle} (h : t.FrozenTo u) (h' : u.FrozenTo v) :
    t.FrozenTo v := by
  rcases h with ⟨r, first, rfl⟩
  rcases h' with ⟨r', second, rfl⟩
  refine ⟨r', first ++ second, ?_⟩
  simp only [Log.reportAll, List.foldl_append]

theorem FrozenTo.exhausted {t u : Turtle} (h : t.FrozenTo u) (ht : t.Exhausted) : u.Exhausted := by
  rcases h with ⟨r, faults, rfl⟩
  exact ht

theorem frozenTo_observe {α : Type} {x : Eval Turtle α} (hx : x.Reading) (t : Turtle) :
    t.FrozenTo (t.observe x).2 := by
  rcases observe_eq_of_reading hx t with ⟨r, hr⟩
  exact ⟨r, _, hr⟩

/-- No charge goes through. -/
theorem Exhausted.charge {t : Turtle} (h : t.Exhausted) : ∃ bound, t.charge = .stopped bound t := by
  rcases h with ⟨bound, hbudget, hused⟩
  refine ⟨bound, ?_⟩
  simp only [Turtle.charge, hbudget, if_pos hused]

/-- What begins with a charge is stopped by it. -/
theorem Exhausted.isStopped_charge {t : Turtle} (h : t.Exhausted) (next : Turtle → Progress) :
    (t.charge.andThen next).isStopped = true := by
  rcases h.charge with ⟨bound, hcharge⟩
  rw [hcharge]
  rfl

/-- The rounds of a loop get through if there are none. -/
theorem Exhausted.isStopped_iterate {t : Turtle} (h : t.Exhausted) (run : Turtle → Progress)
    (rounds index : Nat) : (t.iterate run rounds index).isStopped = decide (0 < rounds) := by
  cases rounds with
  | zero => rfl
  | succ rounds =>
      rcases h.charge with ⟨bound, hcharge⟩
      rw [iterate, within_eq, hcharge]
      simp [Progress.isStopped]

end Turtle

theorem Task.leave_not_mem_ofCommand (c : Command) (t : Turtle) :
    Task.leave ∉ (Task.ofCommand c t).2 := by
  intro hmem
  have hnone := List.countP_eq_zero.mp (Task.scopes_ofCommand c t).2
  exact hnone _ hmem rfl

namespace Moment

/-- A run of an exhausted turtle on its way: the turtle is as it was in the beginning, and
    there is no frame to be left. -/
structure Frozen (t : Turtle) (m : Moment) : Prop where
  turtle : t.FrozenTo m.turtle
  leaves : Task.leave ∉ m.tasks

/-- A step of an exhausted turtle evaluates something, begins or ends a loop, or is refused. -/
theorem frozen_step {t : Turtle} (ht : t.Exhausted) {m : Moment} (h : m.Frozen t) :
    m.step.Frozen t := by
  have hnext := m.next_step
  generalize m.step = m' at hnext ⊢
  cases hnext with
  | done p => exact h
  | refused rest hop hbudget hused =>
      exact ⟨h.turtle, fun hmem => h.leaves (List.mem_cons_of_mem _ hmem)⟩
  | dropped bound u task rest =>
      have hne : task ≠ .leave := fun heq => h.leaves (heq ▸ List.mem_cons_self)
      refine ⟨?_, fun hmem => h.leaves (List.mem_cons_of_mem _ hmem)⟩
      change t.FrozenTo (task.drop u)
      rw [Task.drop_of_ne hne]
      exact h.turtle
  | @paid u v task rest hpay =>
      have hrest : Task.leave ∉ rest := fun hmem => h.leaves (List.mem_cons_of_mem _ hmem)
      unfold Task.pay at hpay
      split at hpay
      next =>
        -- It cannot have been paid for.
        rcases (h.turtle.exhausted ht).charge with ⟨bound, hcharge⟩
        cases hcharge.symm.trans hpay
      next hfree =>
        cases hpay
        cases task with
        | command c =>
            rcases Task.exists_ofCommand_eq c u with ⟨r, faults, hc⟩
            refine ⟨h.turtle.trans ⟨r, faults, hc⟩, ?_⟩
            rw [List.mem_append, not_or]
            exact ⟨Task.leave_not_mem_ofCommand c u, hrest⟩
        | rounds body left index =>
            cases left with
            | zero => exact ⟨h.turtle, hrest⟩
            | succ left => exact ⟨h.turtle, by simpa [Task.effect] using hrest⟩
        | leave => exact absurd List.mem_cons_self h.leaves
        | act | call | enter => exact absurd rfl hfree

theorem frozen_after {t : Turtle} (ht : t.Exhausted) (commands : List Command) (n : Nat) :
    ((start commands t).after n).Frozen t := by
  have hstart : (start commands t).Frozen t := ⟨.refl t, leave_not_mem_commands commands⟩
  exact after_induction hstart (fun _ => frozen_step ht) n

end Moment

theorem frozenTo_runAll {t : Turtle} (ht : t.Exhausted) (commands : List Command) :
    t.FrozenTo (runAll commands t).turtle := by
  rcases Moment.reaches_runAll commands t with ⟨last, hlast⟩
  have h := (Moment.frozen_after ht commands last).turtle
  rw [hlast] at h
  exact h

mutual

/-- Whether a command asks for no operation: a loop without a first round, or a condition
    that does not hold or has only such commands in its body. -/
def Command.idle : Command → Turtle → Bool
  | .loop count _, t => !decide (0.0 < Scalar.floor (t.observe count.eval).1)
  | .condition test body, t =>
    let (test, t) := t.observe test.eval
    test == 0.0 || allIdle body t
  | .basic _, _ | .define _ _ _, _ | .call _ _, _ => false

/-- Whether commands that are run one after another ask for no operation. -/
def allIdle : List Command → Turtle → Bool
  | [], _ => true
  | c :: rest, t => c.idle t && allIdle rest (runAll [c] t).turtle

end

/-- Running one command. -/
theorem runAll_singleton (c : Command) (t : Turtle) :
    runAll [c] t = Command.runWith (runAllAt 999) c t := by
  change (Command.runWith (runAllAt 999) c t).andThen .running = _
  cases Command.runWith (runAllAt 999) c t <;> rfl

/-- Running one command and then the others. -/
theorem runAll_cons (c : Command) (rest : List Command) (t : Turtle) :
    runAll (c :: rest) t = (runAll [c] t).andThen (runAll rest) := by
  rw [runAll_singleton]
  rfl

mutual

/-- A command stops an exhausted turtle unless it is idle. All but loops and conditions
    begin with a charge. -/
theorem isStopped_runAll_singleton :
    (c : Command) → {t : Turtle} → t.Exhausted → (runAll [c] t).isStopped = !c.idle t
  | .basic i, t, ht => by
      have hobserved := (Turtle.frozenTo_observe (Eval.reading_resolve i) t).exhausted ht
      rw [runAll_singleton, Command.runWith, Command.idle]
      exact hobserved.isStopped_charge _
  | .loop count body, t, ht => by
      have hobserved := (Turtle.frozenTo_observe (Eval.reading_arg count) t).exhausted ht
      rw [runAll_singleton, Command.runWith, Command.idle, Bool.not_not]
      refine (hobserved.isStopped_iterate _ _ _).trans ?_
      exact decide_eq_decide.mpr (Scalar.wholeBelow_pos_iff _)
  | .condition test body, t, ht => by
      have hobserved := (Turtle.frozenTo_observe (Eval.reading_arg test) t).exhausted ht
      have hbody := isStopped_runAll body hobserved
      rw [runAll_singleton, Command.runWith, Command.idle]
      simp only
      cases htest : (t.observe test.eval).1 == 0.0 with
      | true => rfl
      | false => exact hbody
  | .define name params body, t, ht => by
      rw [runAll_singleton, Command.runWith, Command.idle]
      exact ht.isStopped_charge _
  | .call name args, t, ht => by
      have hobserved := (Turtle.frozenTo_observe (Eval.reading_args args) t).exhausted ht
      rw [runAll_singleton, Command.runWith, Command.idle]
      exact hobserved.isStopped_charge _

/-- Commands stop an exhausted turtle unless all of them are idle. -/
theorem isStopped_runAll :
    (commands : List Command) → {t : Turtle} → t.Exhausted →
      (runAll commands t).isStopped = !allIdle commands t
  | [], t, _ => rfl
  | c :: rest, t, ht => by
      have hfirst := isStopped_runAll_singleton c ht
      have hexhausted := (frozenTo_runAll ht [c]).exhausted ht
      rw [runAll_cons, allIdle]
      cases hrun : runAll [c] t with
      | stopped bound u =>
          rw [hrun] at hfirst
          have hidle : c.idle t = false := by
            rw [← Bool.not_eq_true', ← hfirst]
            rfl
          rw [hidle]
          rfl
      | running u =>
          rw [hrun] at hfirst hexhausted
          have hidle : c.idle t = true := by
            rw [← Bool.not_eq_false', ← hfirst]
            rfl
          rw [hidle, Bool.true_and]
          exact isStopped_runAll rest hexhausted

end

/-- An exhausted budget freezes the turtle. Whatever commands it runs, at every moment and in
    the end it is what it was, but for random numbers that were drawn and problems that were
    reported while arguments were evaluated. The run gets through exactly if every command
    that it comes to is a loop whose count is not above zero when rounded down, or a condition
    that does not hold or whose body gets through in the same way. -/
theorem exhausted_freezes {t : Turtle} (ht : t.Exhausted) (commands : List Command) :
    (∀ n, t.FrozenTo ((Moment.start commands t).after n).turtle) ∧
      t.FrozenTo (runAll commands t).turtle ∧
      ((runAll commands t).isStopped = false ↔ allIdle commands t = true) := by
  refine ⟨fun n => (Moment.frozen_after ht commands n).turtle, frozenTo_runAll ht commands, ?_⟩
  rw [isStopped_runAll commands ht, Bool.not_eq_false']

/-- Conditions and loops that come to nothing get through without a budget, and a line does
    not. -/
theorem exhausted_freezes_idle :
    let t := Turtle.ofSize ⟨500.0, 500.0⟩ 0
    let idle := (Program.parse "R(0.5)\x7bD\x7d?(0)\x7bD\x7d?(2)\x7bR(-1)\x7bD\x7d\x7d").value
    let busy := (Program.parse "R(0)\x7bD\x7d?(1/0)\x7bD\x7dD").value
    t.Exhausted ∧ t.FrozenTo (runAll busy t).turtle ∧
      (runAll idle t).isStopped = false ∧ allIdle idle t = true ∧
      (runAll busy t).isStopped = true ∧ allIdle busy t = false := by
  intro t idle busy
  have ht : t.Exhausted := ⟨0, rfl, Nat.le_refl 0⟩
  have hidle : (runAll idle t).isStopped = false := by decide +kernel
  have hbusy : (runAll busy t).isStopped = true := by decide +kernel
  rcases exhausted_freezes ht idle with ⟨-, -, hiff⟩
  rcases exhausted_freezes ht busy with ⟨-, hfrozen, hiff'⟩
  refine ⟨ht, hfrozen, hidle, hiff.mp hidle, hbusy, ?_⟩
  by_contra hall
  have hthrough := hiff'.mpr (Bool.eq_true_of_not_eq_false hall)
  rw [hbusy] at hthrough
  cases hthrough

end TurtleGraphics
