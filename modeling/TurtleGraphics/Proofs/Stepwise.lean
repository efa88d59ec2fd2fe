import Mathlib.Logic.Function.Iterate
import TurtleGraphics.Proofs.Composition

/-!
# Runs Step by Step

Running a list of commands is one function from turtles to turtles. It says what a
run comes to and nothing about the way there, so a statement about every moment of
a run, or about an operation that is *attempted*, has nothing to refer to.

Here a run is cut into steps. A moment is what the run has come to together with
the tasks that are still to be done, first one first. A step takes the first task.
A task that is an operation is charged for; the others, such as evaluating the
arguments of a command or leaving a frame, are free. Once the run has been stopped
the tasks are dropped one by one, but the frames are still taken away.

There is no bound on calls in the steps: the body of a called procedure is put in
front of the tasks whenever the call is within the depth the turtle allows. That
the steps of every run come to an end, and with the turtle that running the
commands gives, is `Moment.reaches_runAll`. Its proof is uniform in the tasks that
wait behind those looked at. The recursion on the calls that may still nest is
matched with the frames in place: a call adds a frame and is refused at
`maxDepth`, so `room` calls suffice wherever `room` frames are left to be put in
place.

## Main definitions

* `Task`: One thing that is still to be done.
* `Task.isOperation`: Whether it is charged for.
* `Task.effect`: What it does, and what it leaves to be done.
* `Moment`: A run on its way.
* `Moment.step`, `Moment.after`: The next moment, and the one after some steps.
* `Moment.Next`: What a step can be.
* `Turtle.Applied`: What an action can do.
* `KeepsLocals`: Ways to run that leave the frames above the global one alone.

## Theorems

* `Turtle.of_charge_running`, `Turtle.of_charge_stopped`: What a charge comes to.
* `Moment.after_induction`: What every step keeps holds at every moment.
* `Moment.next_step`: A step is one of four things.
* `Task.exists_ofCommand_eq`: Evaluating arguments touches random numbers and the log only.
* `Turtle.applied`: Only assignments change variables, and few actions report anything.
* `keepsLocals_runAll`: The frames above the global one are as before after a run.
* `Moment.after_of_done`: A moment with nothing left to be done stays as it is.
* `Moment.Reaches.unwind`: A stopped run drops its tasks.
* `does_runWith`, `does_runAllWith`: Tasks do what running commands does.
* `Moment.reaches_runAll`: The steps of a run end with what the run comes to.
-/

namespace TurtleGraphics

namespace Turtle

/-- A charge that goes through is counted and changes nothing else. -/
theorem of_charge_running {t u : Turtle} (h : t.charge = .running u) :
    u = { t with operations := t.operations + 1 } ∧
      ∀ bound, t.budget = some bound → t.operations < bound := by
  unfold charge at h
  cases hbudget : t.budget with
  | none =>
      rw [hbudget] at h
      cases h
      exact ⟨by rw [← hbudget], nofun⟩
  | some bound =>
      rw [hbudget] at h
      simp only at h
      split at h
      next => cases h
      next hused =>
        cases h
        refine ⟨by rw [← hbudget], ?_⟩
        rintro _ ⟨⟩
        omega

/-- A charge that is refused leaves the turtle as it is, and nothing was left of its
    budget. -/
theorem of_charge_stopped {t u : Turtle} {bound : Nat} (h : t.charge = .stopped bound u) :
    u = t ∧ t.budget = some bound ∧ bound ≤ t.operations := by
  unfold charge at h
  cases hbudget : t.budget with
  | none =>
      rw [hbudget] at h
      cases h
  | some limit =>
      rw [hbudget] at h
      simp only at h
      split at h
      next hused =>
        cases h
        exact ⟨rfl, rfl, hused⟩
      next => cases h

end Turtle

/-- One thing that is still to be done. -/
inductive Task where
  /-- Evaluates the arguments of a command and goes on to what it asks for. -/
  | command (c : Command)
  /-- Acts on the turtle. -/
  | act (a : Action)
  /-- Calls a procedure. -/
  | call (name : String) (args : List Scalar)
  /-- Puts a frame on top and runs a body in it. -/
  | enter (frame : Bindings) (body : List Command)
  /-- Runs the body of a loop `left` more times, counting from `index`. -/
  | rounds (body : List Command) (left index : Nat)
  /-- Takes the frame on top away. -/
  | leave

namespace Task

/-- Whether the task is an operation, which is charged for before it takes
    place. -/
def isOperation : Task → Bool
  | .act _ | .call _ _ | .enter _ _ => true
  | .command _ | .rounds _ _ _ | .leave => false

/-- The turtle once the arguments of a command are evaluated, and what the command
    asks for then. -/
def ofCommand : Command → Turtle → Turtle × List Task
  | .basic i, t =>
    let (a, t) := t.observe i.resolve
    (t, [.act a])
  | .loop count body, t =>
    let (count, t) := t.observe count.eval
    (t, [.rounds body (Scalar.wholeBelow count) 0])
  | .condition test body, t =>
    let (test, t) := t.observe test.eval
    (t, if test == 0.0 then [] else body.map .command)
  | .define name params body, t => (t, [.act (.define name ⟨params, body⟩)])
  | .call name args, t =>
    let (args, t) := t.observe (Arg.evalAll args)
    (t, [.call name args])

/-- What a task does to a turtle that has been charged for it, and the tasks that it
    leaves to be done first. -/
def effect : Task → Turtle → Turtle × List Task
  | .command c, t => ofCommand c t
  | .act a, t => (a.apply t, [])
  | .call name args, t =>
    match t.procedures.get? name with
    | none => (t.report (.undefinedProcedure name), [])
    | some p =>
      if t.scopes.depth < t.allowedDepth then (t, [.enter (p.frame args) p.body]) else (t, [])
  | .enter frame body, t => (t.entered frame, body.map .command ++ [.leave])
  | .rounds _ 0 _, t => (t, [])
  | .rounds body (left + 1) index, t =>
    (t, [.enter (Turtle.roundFrame (Scalar.ofNat index)) body, .rounds body left (index + 1)])
  | .leave, t => (t.left, [])

/-- Charges for the task if it is an operation. -/
def pay (task : Task) (t : Turtle) : Progress :=
  if task.isOperation then t.charge else .running t

/-- What dropping the task does to a turtle that was stopped: frames are still
    taken away. -/
def drop : Task → Turtle → Turtle
  | .leave, t => t.left
  | _, t => t

theorem of_pay_stopped {task : Task} {t u : Turtle} {bound : Nat}
    (h : task.pay t = .stopped bound u) :
    task.isOperation = true ∧ u = t ∧ t.budget = some bound ∧ bound ≤ t.operations := by
  unfold pay at h
  split at h
  next hop =>
    rcases Turtle.of_charge_stopped h with ⟨rfl, hbudget, hused⟩
    exact ⟨hop, rfl, hbudget, hused⟩
  next => cases h

theorem drop_of_ne {task : Task} (h : task ≠ .leave) (t : Turtle) : task.drop t = t := by
  cases task with
  | leave => exact absurd rfl h
  | command | act | call | enter | rounds => rfl

end Task

/-- A run on its way: what it has come to, and what is still to be done. -/
structure Moment where
  progress : Progress
  tasks : List Task

namespace Moment

/-- The moment before a list of commands runs. -/
def start (commands : List Command) (t : Turtle) : Moment := ⟨.running t, commands.map .command⟩

def turtle (m : Moment) : Turtle := m.progress.turtle

/-- The next moment. -/
def step : Moment → Moment
  | ⟨p, []⟩ => ⟨p, []⟩
  | ⟨.running t, task :: rest⟩ =>
    match task.pay t with
    | .running t => ⟨.running (task.effect t).1, (task.effect t).2 ++ rest⟩
    | .stopped bound t => ⟨.stopped bound t, rest⟩
  | ⟨.stopped bound t, task :: rest⟩ => ⟨.stopped bound (task.drop t), rest⟩

/-- The moment after `n` steps. -/
def after (m : Moment) (n : Nat) : Moment := step^[n] m

theorem after_succ (m : Moment) (n : Nat) : m.after (n + 1) = (m.after n).step :=
  Function.iterate_succ_apply' step n m

theorem after_add (m : Moment) (n k : Nat) : m.after (n + k) = (m.after n).after k := by
  rw [Nat.add_comm]
  exact Function.iterate_add_apply step k n m

/-- What holds in the beginning and is kept by every step holds at every moment. -/
theorem after_induction {P : Moment → Prop} {m : Moment} (hstart : P m)
    (hstep : ∀ m : Moment, P m → P m.step) (n : Nat) : P (m.after n) := by
  induction n with
  | zero => exact hstart
  | succ n ih =>
      rw [after_succ]
      exact hstep _ ih

/-- What a step can be. -/
inductive Next : Moment → Moment → Prop where
  /-- Nothing is left to be done. -/
  | done (p : Progress) : Next ⟨p, []⟩ ⟨p, []⟩
  /-- The first task takes place. -/
  | paid {t u : Turtle} {task : Task} (rest : List Task) (h : task.pay t = .running u) :
      Next ⟨.running t, task :: rest⟩
        ⟨.running (task.effect u).1, (task.effect u).2 ++ rest⟩
  /-- The first task is an operation too many, and the run is stopped. -/
  | refused {t : Turtle} {task : Task} {bound : Nat} (rest : List Task)
      (hop : task.isOperation = true) (hbudget : t.budget = some bound)
      (hused : bound ≤ t.operations) :
      Next ⟨.running t, task :: rest⟩ ⟨.stopped bound t, rest⟩
  /-- The run was stopped before. -/
  | dropped (bound : Nat) (t : Turtle) (task : Task) (rest : List Task) :
      Next ⟨.stopped bound t, task :: rest⟩ ⟨.stopped bound (task.drop t), rest⟩

theorem next_step (m : Moment) : m.Next m.step := by
  rcases m with ⟨p, _ | ⟨task, rest⟩⟩
  · cases p <;> exact .done _
  cases p with
  | stopped bound t => exact .dropped bound t task rest
  | running t =>
      simp only [step]
      cases hpay : task.pay t with
      | running u => exact .paid rest hpay
      | stopped bound u =>
          rcases Task.of_pay_stopped hpay with ⟨hop, rfl, hbudget, hused⟩
          exact .refused rest hop hbudget hused

/-- With nothing left to be done nothing happens any more. -/
theorem after_of_done (p : Progress) (n : Nat) : (Moment.mk p []).after n = ⟨p, []⟩ := by
  have hfixed : step ⟨p, []⟩ = ⟨p, []⟩ := by cases p <;> rfl
  exact Function.iterate_fixed hfixed n

/-- One moment comes after another. -/
def Reaches (m m' : Moment) : Prop := ∃ n, m.after n = m'

theorem Reaches.refl (m : Moment) : m.Reaches m := ⟨0, rfl⟩

theorem Reaches.trans {m m' m'' : Moment} (h : m.Reaches m') (h' : m'.Reaches m'') :
    m.Reaches m'' := by
  rcases h with ⟨n, rfl⟩
  rcases h' with ⟨k, rfl⟩
  exact ⟨n + k, after_add m n k⟩

/-- A step and then the rest of the way. -/
theorem Reaches.head {m m' : Moment} (h : m.step.Reaches m') : m.Reaches m' :=
  Reaches.trans ⟨1, rfl⟩ h

/-- A stopped run drops the tasks in front, one by one. As long as they take no frame
    away, the turtle stays as it is. -/
theorem Reaches.unwind (bound : Nat) (t : Turtle) {tasks : List Task} (rest : List Task)
    (h : Task.leave ∉ tasks) :
    (Moment.mk (.stopped bound t) (tasks ++ rest)).Reaches ⟨.stopped bound t, rest⟩ := by
  induction tasks with
  | nil => exact .refl _
  | cons task tasks ih =>
      refine .head ?_
      have hne : task ≠ .leave := fun heq => h (heq ▸ List.mem_cons_self)
      simp only [List.cons_append, step, Task.drop_of_ne hne]
      exact ih fun hmem => h (List.mem_cons_of_mem _ hmem)

end Moment

-- Calls are refused at a depth of frames, while running is a recursion on the calls
-- that may still nest. The two are matched below, and for that the frames have to be
-- the same again after each part of a run.

/-- A way to run that leaves the frames above the global one as they were, whether it
    is stopped or not. -/
def KeepsLocals (f : Turtle → Progress) : Prop :=
  ∀ t, (f t).turtle.scopes.locals = t.scopes.locals

namespace Turtle

theorem scopes_charge (t : Turtle) : t.charge.turtle.scopes = t.scopes := by
  cases h : t.charge with
  | running u =>
      rw [(of_charge_running h).1]
      rfl
  | stopped bound u =>
      rw [(of_charge_stopped h).1]
      rfl

theorem scopes_observe {α : Type} {x : Eval Turtle α} (hx : x.Reading) (t : Turtle) :
    (t.observe x).2.scopes = t.scopes := by
  rcases observe_eq_of_reading hx t with ⟨r, hr⟩
  rw [hr]

end Turtle

/-- Evaluating the arguments of a command changes the random numbers and appends to the
    log. -/
theorem Task.exists_ofCommand_eq (c : Command) (t : Turtle) :
    ∃ r faults, (ofCommand c t).1 = { t with random := r, log := t.log.reportAll faults } := by
  cases c with
  | basic i =>
      rcases Turtle.observe_eq_of_reading (Eval.reading_resolve i) t with ⟨r, hr⟩
      exact ⟨r, _, hr⟩
  | loop count body =>
      rcases Turtle.observe_eq_of_reading (Eval.reading_arg count) t with ⟨r, hr⟩
      exact ⟨r, _, hr⟩
  | condition test body =>
      rcases Turtle.observe_eq_of_reading (Eval.reading_arg test) t with ⟨r, hr⟩
      exact ⟨r, _, hr⟩
  | define name params body => exact ⟨t.random, [], rfl⟩
  | call name args =>
      rcases Turtle.observe_eq_of_reading (Eval.reading_args args) t with ⟨r, hr⟩
      exact ⟨r, _, hr⟩

namespace Turtle

/-- What an action can do to the account, the variables and the log of a turtle. -/
structure Applied (a : Action) (t u : Turtle) : Prop where
  budget : u.budget = t.budget
  operations : u.operations = t.operations
  scopes : u.scopes = t.scopes ∨
    ∃ name v, a = .assign name v ∧ u.scopes = t.scopes.setGlobal name v
  log : u.log = t.log ∨ u.log = t.log.report .stackFull ∨ u.log = t.log.report .stackEmpty

/-- An assignment is the only action that changes variables. Saving and restoring a
    pose are the only ones that can report something. -/
theorem applied (a : Action) (t : Turtle) : Applied a t (a.apply t) := by
  cases a with
  | assign name v => exact ⟨rfl, rfl, .inr ⟨name, v, rfl, rfl⟩, .inl rfl⟩
  | forward distance penDown => cases penDown <;> exact ⟨rfl, rfl, .inl rfl, .inl rfl⟩
  | moveTo target penDown => cases penDown <;> exact ⟨rfl, rfl, .inl rfl, .inl rfl⟩
  | push =>
      by_cases hroom : t.stack.length < maxSaved
      · simp only [Action.apply, savePose, if_pos hroom]
        exact ⟨rfl, rfl, .inl rfl, .inl rfl⟩
      · simp only [Action.apply, savePose, if_neg hroom]
        exact ⟨rfl, rfl, .inl rfl, .inr (.inl rfl)⟩
  | pop =>
      simp only [Action.apply, restorePose]
      cases t.stack with
      | nil => exact ⟨rfl, rfl, .inl rfl, .inr (.inr rfl)⟩
      | cons pose stack => exact ⟨rfl, rfl, .inl rfl, .inl rfl⟩
  | turn | heading | step | color | width | flush | background | limit | define =>
      exact ⟨rfl, rfl, .inl rfl, .inl rfl⟩

theorem locals_apply (a : Action) (t : Turtle) : (a.apply t).scopes.locals = t.scopes.locals := by
  rcases (applied a t).scopes with h | ⟨name, v, -, h⟩
  · rw [h]
  · rw [h, Scopes.locals_setGlobal]

theorem allowedDepth_le (t : Turtle) : t.allowedDepth ≤ maxDepth := by
  unfold allowedDepth Scalar.wholeAbove
  split
  · exact Nat.min_le_left _ _
  · exact Nat.le_refl _
  · exact Nat.zero_le _

end Turtle

theorem keepsLocals_andThen {f g : Turtle → Progress} (hf : KeepsLocals f) (hg : KeepsLocals g) :
    KeepsLocals fun t => (f t).andThen g := by
  intro t
  have hfirst := hf t
  change ((f t).andThen g).turtle.scopes.locals = t.scopes.locals
  cases hft : f t with
  | running u =>
      rw [hft] at hfirst
      exact (hg u).trans hfirst
  | stopped bound u =>
      rw [hft] at hfirst
      exact hfirst

theorem keepsLocals_charge : KeepsLocals Turtle.charge := fun t => by
  rw [t.scopes_charge]

/-- The frame that is put on top is the one that is taken away. -/
theorem keepsLocals_within {f : Turtle → Progress} (hf : KeepsLocals f) (frame : Bindings) :
    KeepsLocals fun t => t.within frame f := by
  simp only [Turtle.within_eq]
  refine keepsLocals_andThen keepsLocals_charge (fun t => ?_)
  rw [Progress.turtle_map]
  exact congrArg List.tail (hf (t.entered frame))

theorem compositional_keepsLocals : Compositional KeepsLocals where
  running := fun _ => rfl
  andThen := keepsLocals_andThen
  observe := fun hx hf t => by
    rw [hf _ _, Turtle.scopes_observe hx]
  perform := fun a => keepsLocals_andThen keepsLocals_charge (Turtle.locals_apply a)
  within := fun frame hf => keepsLocals_within hf frame
  call := by
    intro run name args hrun
    refine keepsLocals_andThen keepsLocals_charge (fun t => ?_)
    cases t.procedures.get? name with
    | none => rfl
    | some p =>
        by_cases hdepth : t.scopes.depth < t.allowedDepth
        · simp only [if_pos hdepth]
          exact keepsLocals_within (hrun p.body) (p.frame args) t
        · simp only [if_neg hdepth]
          rfl

/-- The frames above the global one are as before after a run. -/
theorem keepsLocals_runAll (commands : List Command) : KeepsLocals (runAll commands) :=
  compositional_keepsLocals.runAll commands

/-- Tasks do what `f` does to every turtle with at most `room` frames left below
    `maxDepth`, whatever is to be done after them. -/
def Does (room : Nat) (tasks : List Task) (f : Turtle → Progress) : Prop :=
  ∀ (t : Turtle) (rest : List Task), Turtle.maxDepth ≤ room + t.scopes.depth →
    (Moment.mk (.running t) (tasks ++ rest)).Reaches ⟨f t, rest⟩

section

variable {room : Nat} {f g : Turtle → Progress}

theorem does_of_succ {tasks : List Task} (h : Does (room + 1) tasks f) : Does room tasks f :=
  fun t rest hroom => h t rest (by omega)

theorem does_nil : Does room [] .running := fun _ _ _ => .refl _

/-- Tasks one after another. If the first ones are stopped the others are dropped,
    which must not take a frame away. -/
theorem does_append {first second : List Task} (hf : Does room first f)
    (hg : Does room second g) (hkeeps : KeepsLocals f) (hleave : Task.leave ∉ second) :
    Does room (first ++ second) fun t => (f t).andThen g := by
  intro t rest hroom
  have hfirst := hf t (second ++ rest) hroom
  have hlocals := hkeeps t
  rw [List.append_assoc]
  change Moment.Reaches _ ⟨(f t).andThen g, rest⟩
  cases hft : f t with
  | running u =>
      -- The frames are what they were, so the second part has the same room.
      rw [hft] at hfirst hlocals
      refine hfirst.trans (hg u rest ?_)
      rw [u.scopes.depth_eq, show u.scopes.locals = t.scopes.locals from hlocals,
        ← t.scopes.depth_eq]
      exact hroom
  | stopped bound u =>
      -- The second part is dropped, task by task.
      rw [hft] at hfirst
      exact hfirst.trans (.unwind bound u rest hleave)

/-- An operation is charged for first, which leaves the frames alone. If there is
    nothing left to charge, the run is stopped and the operation does not take
    place. -/
theorem does_operation {task : Task} (hop : task.isOperation = true)
    (h : ∀ (u : Turtle) (rest : List Task), Turtle.maxDepth ≤ room + u.scopes.depth →
      (Moment.mk (.running (task.effect u).1) ((task.effect u).2 ++ rest)).Reaches ⟨g u, rest⟩) :
    Does room [task] fun t => t.charge.andThen g := by
  intro t rest hroom
  refine .head ?_
  have hscopes := t.scopes_charge
  simp only [List.singleton_append, Moment.step, Task.pay, hop, if_true]
  cases hcharge : t.charge with
  | stopped bound u => exact .refl _
  | running u =>
      rw [hcharge] at hscopes
      refine h u rest ?_
      rw [show u.scopes = t.scopes from hscopes]
      exact hroom

theorem does_act (a : Action) : Does room [.act a] fun t => t.perform a :=
  does_operation rfl fun _ _ _ => .refl _

/-- A frame is one of those that are left below `maxDepth`, so the body has one less. -/
theorem does_enter {body : List Command} (hbody : Does room (body.map .command) f)
    (frame : Bindings) : Does (room + 1) [.enter frame body] fun t => t.within frame f := by
  simp only [Turtle.within_eq]
  refine does_operation rfl fun u rest hroom => ?_
  have hdepth : Turtle.maxDepth ≤ room + (u.entered frame).scopes.depth := by
    have hpush : (u.entered frame).scopes.depth = u.scopes.depth + 1 := rfl
    omega
  have hinner := hbody (u.entered frame) (.leave :: rest) hdepth
  simp only [Task.effect, List.append_assoc, List.singleton_append]
  refine hinner.trans (.head ?_)
  -- The frame is taken away in both cases: leaving it costs nothing, and a stopped run
  -- drops the task with its effect on the frames.
  cases f (u.entered frame) with
  | running v => exact .refl _
  | stopped bound v => exact .refl _

theorem does_rounds {body : List Command} (hbody : Does room (body.map .command) f)
    (hkeeps : KeepsLocals f) (left index : Nat) :
    Does room [.rounds body left index] (Turtle.iterate f left index) := by
  induction left generalizing index with
  | zero => exact fun t rest _ => .head (.refl _)
  | succ left ih =>
      intro t rest hroom
      -- One round in a frame of its own, and then the rounds that are left.
      have hround := does_of_succ (does_enter hbody (Turtle.roundFrame (Scalar.ofNat index)))
      have hboth := does_append hround (ih (index + 1))
        (keepsLocals_within hkeeps _) (by simp)
      exact .head (hboth t rest hroom)

/-- A call that goes through puts a frame on top, so the body has one less left. -/
theorem does_call {run : List Command → Turtle → Progress}
    (hrun : ∀ body, Does room (body.map .command) (run body)) (name : String)
    (args : List Scalar) : Does (room + 1) [.call name args] fun t => t.call run name args := by
  refine does_operation rfl fun u rest hroom => ?_
  simp only [Task.effect]
  cases u.procedures.get? name with
  | none => exact .refl _
  | some p =>
      by_cases hdepth : u.scopes.depth < u.allowedDepth
      · simp only [if_pos hdepth]
        exact does_enter (hrun p.body) (p.frame args) u rest hroom
      · simp only [if_neg hdepth]
        exact .refl _

/-- With no frame left below `maxDepth` a call is refused before its body is asked
    for, so that it does not matter how bodies run. -/
theorem does_call_of_full (run : List Command → Turtle → Progress) (name : String)
    (args : List Scalar) : Does 0 [.call name args] fun t => t.call run name args := by
  refine does_operation rfl fun u rest hroom => ?_
  have hdepth : ¬ u.scopes.depth < u.allowedDepth := by
    have hle := u.allowedDepth_le
    omega
  simp only [Task.effect, if_neg hdepth]
  cases u.procedures.get? name with
  | none => exact .refl _
  | some p => exact .refl _

theorem leave_not_mem_commands (commands : List Command) :
    Task.leave ∉ commands.map Task.command := by
  simp

end

section

variable {room : Nat} {run : List Command → Turtle → Progress}

mutual

/-- A command, by cases. Its bodies do what they should by recursion, and so do calls
    by assumption. -/
theorem does_runWith (hkeeps : ∀ body, KeepsLocals (run body))
    (hcall : ∀ name args, Does room [.call name args] fun t => t.call run name args) :
    (c : Command) → Does room [.command c] (Command.runWith run c)
  | .basic i => fun t rest hroom => by
      rw [← Turtle.scopes_observe (Eval.reading_resolve i) t] at hroom
      exact .head (does_act _ _ rest hroom)
  | .loop count body => fun t rest hroom => by
      have hbody := does_runAllWith hkeeps hcall body
      have hkeep := compositional_keepsLocals.runAllWith hkeeps body
      rw [← Turtle.scopes_observe (Eval.reading_arg count) t] at hroom
      exact .head (does_rounds hbody hkeep _ 0 _ rest hroom)
  | .condition test body => fun t rest hroom => by
      rw [← Turtle.scopes_observe (Eval.reading_arg test) t] at hroom
      refine .head ?_
      simp only [List.singleton_append, Moment.step, Task.pay, Task.isOperation, Task.effect,
        Task.ofCommand, Bool.false_eq_true, if_false, Command.runWith]
      -- The test decides which tasks are put in front, and neither choice is charged for.
      by_cases htest : ((t.observe test.eval).1 == 0.0) = true
      · simp only [htest, if_true]
        exact .refl _
      · simp only [htest]
        exact does_runAllWith hkeeps hcall body _ rest hroom
  | .define name params body => fun t rest hroom => .head (does_act _ t rest hroom)
  | .call name args => fun t rest hroom => by
      rw [← Turtle.scopes_observe (Eval.reading_args args) t] at hroom
      exact .head (hcall name _ _ rest hroom)

/-- A list of commands, one after another. -/
theorem does_runAllWith (hkeeps : ∀ body, KeepsLocals (run body))
    (hcall : ∀ name args, Does room [.call name args] fun t => t.call run name args) :
    (commands : List Command) → Does room (commands.map .command) (runAllWith run commands)
  | [] => does_nil
  | c :: rest =>
      does_append (does_runWith hkeeps hcall c) (does_runAllWith hkeeps hcall rest)
        (compositional_keepsLocals.runWith hkeeps c) (leave_not_mem_commands rest)

end

end

/-- Commands do what running them does, by induction on the frames that are left
    below `maxDepth`. -/
theorem does_runAllAt (room : Nat) (commands : List Command) :
    Does room (commands.map .command) (runAllAt room commands) := by
  induction room generalizing commands with
  | zero =>
      -- Here bodies of procedures are not run at all, and none is asked for.
      exact does_runAllWith (fun _ _ => rfl) (does_call_of_full _) commands
  | succ room ih =>
      exact does_runAllWith (compositional_keepsLocals.runAllAt room) (does_call ih) commands

namespace Moment

/-- The steps of a run come to an end, and with what running the commands gives. -/
theorem reaches_runAll (commands : List Command) (t : Turtle) :
    (start commands t).Reaches ⟨runAll commands t, []⟩ := by
  have h := does_runAllAt Turtle.maxDepth commands t [] (Nat.le_add_right _ _)
  rw [List.append_nil] at h
  exact h

end Moment

end TurtleGraphics
