import TurtleGraphics.Proofs.Halting

/-!
# Saved Poses

A bracket saves the pose of the turtle on a stack, and the bracket that closes it goes back
there. What is between the two can be any program: it moves and turns, has brackets of its
own, goes through loops and calls procedures. It may also have brackets that do not match.
A bracket that opens with a thousand poses saved is refused, and the one that was meant to
close it goes back to a pose that was saved before.

So matching brackets in the text say little, and the condition is about the run: the stack
never gets below the height it has inside of the brackets, and has that height in the end.
All that can happen to a stack in one step is that the pose is put on top or that the top
is taken away. `Turtle.Restacked` says so for every step of a run. As long as the stack is
no lower than it was, what it was is still at the bottom of it, and in the end it is all
there is.

## Main definitions

* `Turtle.Restacked`: What a step can do to the saved poses.

## Theorems

* `Turtle.restacked_apply`: An action saves or restores at most one pose.
* `Moment.restacked_step`: So does a step of a run.
* `Moment.stack_after_le`: At most a thousand poses are saved at every moment.
* `Moment.suffix_stack_after`: Saved poses stay where they are below a stack that stays high.
* `brackets_restore`: Brackets restore the pose and the stack.
-/

namespace TurtleGraphics

namespace Turtle

/-- What a step can do to the saved poses of a turtle. -/
inductive Restacked (t u : Turtle) : Prop where
  | kept (h : u.stack = t.stack)
  | saved (hroom : t.stack.length < maxSaved) (h : u.stack = t.pose :: t.stack)
  | restored (h : t.stack = u.pose :: u.stack)

/-- An action puts the pose on top, goes back to the one on top, or leaves the saved poses
    alone. -/
theorem restacked_apply (a : Action) (t : Turtle) : t.Restacked (a.apply t) := by
  cases a with
  | push =>
      by_cases hroom : t.stack.length < maxSaved
      · refine .saved hroom ?_
        simp only [Action.apply, savePose, if_pos hroom]
      · refine .kept ?_
        simp only [Action.apply, savePose, if_neg hroom]
        rfl
  | pop =>
      rcases hstack : t.stack with _ | ⟨pose, stack⟩
      · refine .kept ?_
        simp only [Action.apply, restorePose, hstack]
        exact hstack
      · refine .restored ?_
        simp only [Action.apply, restorePose, hstack]
  | forward distance penDown => cases penDown <;> exact .kept rfl
  | moveTo target penDown => cases penDown <;> exact .kept rfl
  | turn | heading | step | color | width | flush | background | limit | assign | define =>
      exact .kept rfl

theorem Restacked.length_le {t u : Turtle} (h : t.Restacked u)
    (hle : t.stack.length ≤ maxSaved) : u.stack.length ≤ maxSaved := by
  cases h with
  | kept h =>
      rw [h]
      exact hle
  | saved hroom h =>
      rw [h, List.length_cons]
      omega
  | restored h =>
      rw [h, List.length_cons] at hle
      omega

/-- A pose that is taken away was on top, so what is further down stays there unless the
    stack gets lower. -/
theorem Restacked.suffix {t u : Turtle} (h : t.Restacked u) {base : List Pose}
    (hbase : base <:+ t.stack) (hle : base.length ≤ u.stack.length) : base <:+ u.stack := by
  cases h with
  | kept h =>
      rw [h]
      exact hbase
  | saved hroom h =>
      rw [h]
      exact hbase.trans (List.suffix_cons _ _)
  | restored h =>
      rw [h] at hbase
      rcases List.suffix_cons_iff.mp hbase with rfl | hbelow
      · rw [List.length_cons] at hle
        omega
      · exact hbelow

/-- Actions, one by one, never save more than a thousand poses. -/
theorem stack_performAll_le (actions : List Action) {t : Turtle}
    (hle : t.stack.length ≤ maxSaved) : (performAll actions t).turtle.stack.length ≤ maxSaved := by
  induction actions generalizing t with
  | nil => exact hle
  | cons a rest ih =>
      simp only [performAll, perform]
      cases hcharge : t.charge with
      | running u =>
          rcases of_charge_running hcharge with ⟨rfl, -⟩
          exact ih ((restacked_apply a _).length_le hle)
      | stopped bound u =>
          rcases of_charge_stopped hcharge with ⟨rfl, -⟩
          exact hle

end Turtle

namespace Task

theorem restacked_effect (task : Task) (t : Turtle) : t.Restacked (task.effect t).1 := by
  cases task with
  | command c =>
      rcases exists_ofCommand_eq c t with ⟨r, faults, hc⟩
      refine .kept ?_
      rw [effect, hc]
  | act a => exact t.restacked_apply a
  | call name args =>
      refine .kept ?_
      simp only [effect]
      cases t.procedures.get? name with
      | none => rfl
      | some p =>
          simp only
          split <;> rfl
  | enter frame body => exact .kept rfl
  | rounds body left index => cases left <;> exact .kept rfl
  | leave => exact .kept rfl

end Task

namespace Moment

/-- A step of a run saves or restores at most one pose. -/
theorem restacked_step (m : Moment) : m.turtle.Restacked m.step.turtle := by
  have hnext := m.next_step
  generalize m.step = m' at hnext ⊢
  cases hnext with
  | done p => exact .kept rfl
  | @paid t u task rest hpay =>
      rcases Task.of_pay_running hpay with ⟨operations, rfl⟩
      -- The charge has changed neither the pose nor the stack.
      cases task.restacked_effect { t with operations } with
      | kept h => exact .kept h
      | saved hroom h => exact .saved hroom h
      | restored h => exact .restored h
  | refused rest hop hbudget hused => exact .kept rfl
  | dropped bound t task rest => cases task <;> exact .kept rfl

theorem stack_after_le {m : Moment} (h : m.turtle.stack.length ≤ Turtle.maxSaved) (n : Nat) :
    (m.after n).turtle.stack.length ≤ Turtle.maxSaved :=
  after_induction (P := fun m => m.turtle.stack.length ≤ Turtle.maxSaved) h
    (fun m hm => m.restacked_step.length_le hm) n

/-- As long as the stack is no lower than some poses at its bottom are many, they stay
    there. -/
theorem suffix_stack_after {m : Moment} {base : List Pose} (hbase : base <:+ m.turtle.stack)
    (hhigh : ∀ n, base.length ≤ (m.after n).turtle.stack.length) (n : Nat) :
    base <:+ (m.after n).turtle.stack := by
  induction n with
  | zero => exact hbase
  | succ n ih =>
      have hle := hhigh (n + 1)
      rw [after_succ] at hle ⊢
      exact (m.after n).restacked_step.suffix ih hle

/-- What holds up to a moment at which nothing is left to be done holds at every moment. -/
theorem forall_after_of_done {m : Moment} {P : Moment → Prop} {last : Nat}
    (hdone : (m.after last).tasks = []) (h : ∀ n ≤ last, P (m.after n)) (n : Nat) :
    P (m.after n) := by
  by_cases hn : n ≤ last
  · exact h n hn
  · rcases Nat.exists_eq_add_of_le (Nat.le_of_not_le hn) with ⟨d, rfl⟩
    have hstays : (m.after last).after d = m.after last := by
      rcases hlast : m.after last with ⟨p, tasks⟩
      rw [hlast] at hdone
      subst hdone
      exact after_of_done p d
    rw [after_add, hstays]
    exact h last (Nat.le_refl _)

end Moment

/-- No more poses are saved than the stack has room for, whatever programs have been run. -/
theorem Turtle.Reached.stack_le {t : Turtle} (h : t.Reached) : t.stack.length ≤ maxSaved := by
  induction h with
  | fresh size budget log => exact Nat.zero_le _
  | load source _ ih => exact ih
  | withBudget budget _ ih => exact ih
  | @after t source n _ ih =>
      exact Moment.stack_after_le (m := .start (Program.parse source).value t) ih n

/-- With room for it, an opening bracket that is run to its end has saved the pose. -/
theorem stack_of_runAll_push {t u : Turtle} (hroom : t.stack.length < Turtle.maxSaved)
    (h : runAll [.basic .push] t = .running u) : u.stack = t.pose :: t.stack := by
  change (t.perform .push).andThen .running = _ at h
  unfold Turtle.perform at h
  cases hcharge : t.charge with
  | running v =>
      rw [hcharge] at h
      rcases Turtle.of_charge_running hcharge with ⟨rfl, -⟩
      simp only [Progress.andThen_running, Action.apply, Turtle.savePose, if_pos hroom] at h
      cases h
      rfl
  | stopped bound v =>
      rw [hcharge] at h
      cases h

/-- Within the budget, a closing bracket goes back to the pose on top. -/
theorem exists_runAll_pop {t : Turtle} {pose : Pose} {stack : List Pose}
    (hstack : t.stack = pose :: stack)
    (hbudget : ∀ bound, t.budget = some bound → t.operations < bound) :
    ∃ u, runAll [.basic .pop] t = .running u ∧ u.pose = pose ∧ u.stack = stack := by
  have hrun : runAll [.basic .pop] t = (t.perform .pop).andThen .running := rfl
  rw [hrun]
  unfold Turtle.perform
  cases hcharge : t.charge with
  | running v =>
      rcases Turtle.of_charge_running hcharge with ⟨rfl, -⟩
      refine ⟨_, rfl, ?_, ?_⟩ <;> simp only [Action.apply, Turtle.restorePose, hstack]
  | stopped bound v =>
      rcases Turtle.of_charge_stopped hcharge with ⟨-, hbound, hused⟩
      have hleft := hbudget bound hbound
      omega

/-- Brackets restore the pose. At most a thousand poses are saved by any turtle that programs
    can come to, and while the cursor is drawn. And whatever is run between two brackets: if
    there is room for the pose, the run goes through, the stack is never lower than at the
    opening bracket and is as high as that in the end, then the closing bracket, unless it
    is an operation too many, brings back the pose and the whole stack from before the
    opening one. -/
theorem brackets_restore :
    (∀ t : Turtle, t.Reached → t.stack.length ≤ 1000 ∧
      ∀ k, (Turtle.performAll (Turtle.glyph.take k) t.liftBudget).turtle.stack.length ≤ 1000) ∧
    ∀ (t u v : Turtle) (body : List Command), t.stack.length < 1000 →
      runAll [.basic .push] t = .running u → runAll body u = .running v →
      (∀ n, t.stack.length + 1 ≤ ((Moment.start body u).after n).turtle.stack.length) →
      v.stack.length = t.stack.length + 1 →
      (∀ bound, v.budget = some bound → v.operations < bound) →
      ∃ w, runAll [.basic .pop] v = .running w ∧ w.pose = t.pose ∧ w.stack = t.stack := by
  refine ⟨fun t ht => ⟨ht.stack_le, fun k => ?_⟩, ?_⟩
  · exact Turtle.stack_performAll_le (t := t.liftBudget) _ ht.stack_le
  intro t u v body hroom hopen hbody hhigh hlength hbudget
  have hsaved : u.stack = t.pose :: t.stack := stack_of_runAll_push hroom hopen
  have hbase : t.pose :: t.stack <:+ (Moment.start body u).turtle.stack := by
    change _ <:+ u.stack
    rw [hsaved]
  -- What is there in the end has the saved poses at its bottom, and is no more than these.
  rcases Moment.reaches_runAll body u with ⟨last, hlast⟩
  have hbottom := Moment.suffix_stack_after hbase hhigh last
  rw [hlast, hbody] at hbottom
  have hstack : v.stack = t.pose :: t.stack := (hbottom.eq_of_length hlength.symm).symm
  exact exists_runAll_pop hstack hbudget

/-- Brackets around moves, more brackets, and a loop that calls a procedure which has
    brackets of its own. -/
theorem brackets_restore_nested :
    let t := Turtle.ofSize ⟨500.0, 500.0⟩ 100
    let u := { t with operations := 1, stack := [t.pose] }
    let body := (Program.parse "@F()\x7b+[D]\x7dD[+[D]]R(2)\x7b@F()\x7d").value
    t.stack.length ≤ 1000 ∧ runAll [.basic .push] t = .running u ∧
      ∃ v w, runAll body u = .running v ∧ runAll [.basic .pop] v = .running w ∧
        w.pose = t.pose ∧ w.stack = t.stack := by
  intro t u body
  have hopen : runAll [.basic .push] t = .running u := rfl
  have hruns : (runAll body u).isStopped = false := by decide +kernel
  have hlength : (runAll body u).turtle.stack.length = 1 := by decide +kernel
  have hbudget : (runAll body u).turtle.budget = some 100 := by decide +kernel
  have hleft : (runAll body u).turtle.operations < 100 := by decide +kernel
  have hdone : ((Moment.start body u).after 50).tasks.length = 0 := by decide +kernel
  have hhigh : ∀ n ≤ 50, 1 ≤ ((Moment.start body u).after n).turtle.stack.length := by
    decide +kernel
  refine ⟨(brackets_restore.1 t (.fresh _ _ _)).1, hopen, ?_⟩
  cases hrun : runAll body u with
  | stopped bound v =>
      rw [hrun] at hruns
      cases hruns
  | running v =>
      rw [hrun] at hlength hbudget hleft
      have hwithin : ∀ bound, v.budget = some bound → v.operations < bound := by
        intro bound hbound
        cases hbudget.symm.trans hbound
        exact hleft
      have hall := Moment.forall_after_of_done (P := fun m => 1 ≤ m.turtle.stack.length)
        (List.length_eq_zero_iff.mp hdone) hhigh
      rcases brackets_restore.2 t u v body (by decide) hopen hrun hall hlength hwithin with
        ⟨w, hclose, hpose, hstack⟩
      exact ⟨v, w, rfl, hclose, hpose, hstack⟩

end TurtleGraphics
