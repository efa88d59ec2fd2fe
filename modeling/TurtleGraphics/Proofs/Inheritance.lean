import TurtleGraphics.Proofs.Frames

/-!
# Properties That Tasks Inherit from Commands

What a run has still to do is taken from the program: the tasks at a moment are its
commands, the bodies of its commands, or the bodies of procedures that its commands have
defined. So what is known of the commands of a program, and is passed on to their bodies,
is known of all that a run comes to do.

It can matter how many frames are around a task when its turn comes. These are the frames
that are left after it, so the level of a task can be read off the tasks behind it, and
`Standard.Meets` asks of each task what is to be asked at its level. That the levels are
the depths of the turtle is what `Moment.framed_after` says.

Bodies of procedures do not stay where they are. They are kept in a table that every
definition changes, and run at the level of the call. What is asked of them is therefore
free of levels, and `Standard.Lasting` says that it suffices wherever a call can go through.

## Main definitions

* `Standard`: What is asked of commands, levels, procedures and loops.
* `Standard.Suits`, `Standard.Meets`: What is asked of a task, and of all tasks.
* `Standard.Knows`: What is asked of the procedures of a turtle.
* `Standard.Inherited`: A standard that commands pass on to their bodies.
* `Standard.Lasting`: One that also survives calls.

## Theorems

* `Turtle.procedures_apply`: Definitions are the only actions that change procedures.
* `Standard.Inherited.meets_effect`: What a task leaves to be done meets what the task does.
* `Standard.Lasting.holds_step`: A step keeps what is asked of tasks and procedures.
* `Standard.Lasting.holds_after`: At every moment of a run the standard of its commands is met.
-/

namespace TurtleGraphics

/-- What is asked of a program. -/
structure Standard where
  /-- The commands that may be run inside of so many frames. -/
  command : (level : Nat) → Command → Prop
  /-- The levels on which anything may be done. -/
  level : Nat → Prop
  /-- The bodies that procedures may have. -/
  procedure : List Command → Prop
  /-- The numbers of rounds that loops may have. -/
  rounds : Nat → Prop

namespace Standard

variable (S : Standard)

/-- What is asked of a task that is done inside of so many frames, the one that it
    leaves apart. -/
def Suits (level : Nat) : Task → Prop
  | .command c => S.command level c
  | .act a => S.level level ∧ ∀ name p, a = .define name p → S.procedure p.body
  | .call _ _ => S.level level
  | .enter _ body => S.level level ∧ ∀ c ∈ body, S.command (level + 1) c
  | .rounds body left index =>
    S.level level ∧ (∀ c ∈ body, S.command (level + 1) c) ∧ S.rounds (index + left)
  | .leave => S.level level

/-- What is asked of tasks with `base` more frames around all of them. -/
def Meets (base : Nat) : List Task → Prop
  | [] => True
  | task :: rest => S.Suits (base + rest.countP Task.isLeave) task ∧ Meets base rest

/-- What is asked of the procedures that a turtle knows. -/
def Knows (t : Turtle) : Prop :=
  ∀ name p, t.procedures.get? name = some p → S.procedure p.body

/-- Commands pass on what is asked of them: to their bodies, to the procedures they
    define, and to the rounds they run. -/
structure Inherited : Prop where
  level {level : Nat} {c : Command} : S.command level c → S.level level
  loop {level : Nat} {count : Arg} {body : List Command} :
    S.command level (.loop count body) → ∀ c ∈ body, S.command (level + 1) c
  rounds {level : Nat} {count : Arg} {body : List Command} (t : Turtle) :
    S.command level (.loop count body) → S.rounds (Scalar.wholeBelow (t.observe count.eval).1)
  condition {level : Nat} {test : Arg} {body : List Command} :
    S.command level (.condition test body) → ∀ c ∈ body, S.command level c
  define {level : Nat} {name : String} {params : List (Option String)} {body : List Command} :
    S.command level (.define name params body) → S.procedure body

/-- Bodies of procedures are fit for every level on which a call can go through. -/
structure Lasting : Prop extends S.Inherited where
  call {level : Nat} {body : List Command} :
    S.procedure body → level < Turtle.maxDepth → ∀ c ∈ body, S.command (level + 1) c

/-- All that is still to be done at a moment, and all that the turtle knows, is as the
    standard asks. -/
structure Holds (m : Moment) : Prop where
  meets : S.Meets 0 m.tasks
  knows : S.Knows m.turtle

end Standard

namespace Turtle

theorem procedures_observe {α : Type} {x : Eval Turtle α} (hx : x.Reading) (t : Turtle) :
    (t.observe x).2.procedures = t.procedures := by
  rcases observe_eq_of_reading hx t with ⟨r, hr⟩
  rw [hr]

/-- Definitions are the only actions that change procedures. -/
theorem procedures_apply (a : Action) (t : Turtle) :
    (a.apply t).procedures = t.procedures ∨
      ∃ name p, a = .define name p ∧ (a.apply t).procedures = t.procedures.set name p := by
  cases a with
  | define name p => exact .inr ⟨name, p, rfl, rfl⟩
  | forward distance penDown => cases penDown <;> exact .inl rfl
  | moveTo target penDown => cases penDown <;> exact .inl rfl
  | push =>
      refine .inl ?_
      simp only [Action.apply, savePose]
      split <;> rfl
  | pop =>
      refine .inl ?_
      simp only [Action.apply, restorePose]
      split <;> rfl
  | turn | heading | step | color | width | flush | background | limit | assign => exact .inl rfl

end Turtle

namespace Task

theorem procedures_ofCommand (c : Command) (t : Turtle) :
    (ofCommand c t).1.procedures = t.procedures := by
  cases c with
  | basic i => exact Turtle.procedures_observe (Eval.reading_resolve i) t
  | loop count body => exact Turtle.procedures_observe (Eval.reading_arg count) t
  | condition test body => exact Turtle.procedures_observe (Eval.reading_arg test) t
  | define name params body => rfl
  | call name args => exact Turtle.procedures_observe (Eval.reading_args args) t

/-- A task changes the procedures only by defining one. -/
theorem procedures_effect (task : Task) (t : Turtle) :
    (task.effect t).1.procedures = t.procedures ∨
      ∃ name p, task = .act (.define name p) ∧
        (task.effect t).1.procedures = t.procedures.set name p := by
  cases task with
  | command c => exact .inl (procedures_ofCommand c t)
  | act a =>
      rcases t.procedures_apply a with h | ⟨name, p, rfl, h⟩
      · exact .inl h
      · exact .inr ⟨name, p, rfl, h⟩
  | call name args =>
      refine .inl ?_
      simp only [effect]
      cases t.procedures.get? name with
      | none => rfl
      | some p => simp only [apply_ite Prod.fst, ite_self]
  | enter frame body => exact .inl rfl
  | rounds body left index => cases left <;> exact .inl rfl
  | leave => exact .inl rfl

/-- Paying for a task is counted and changes nothing else. -/
theorem of_pay_running {task : Task} {t u : Turtle} (h : task.pay t = .running u) :
    ∃ operations, u = { t with operations } := by
  unfold pay at h
  split at h
  · exact ⟨_, (Turtle.of_charge_running h).1⟩
  · cases h
    exact ⟨t.operations, rfl⟩

theorem procedures_pay {task : Task} {t u : Turtle} (h : task.pay t = .running u) :
    u.procedures = t.procedures := by
  rcases of_pay_running h with ⟨operations, rfl⟩
  rfl

/-- No instruction comes to a definition. -/
theorem resolve_ne_define (i : Instruction) (t : Turtle) (name : String) (p : Procedure) :
    (t.observe i.resolve).1 ≠ .define name p := by
  cases i with
  | turn amount clockwise => cases amount <;> nofun
  | forward distance penDown => cases distance <;> nofun
  | heading | moveTo | push | pop | step | color | width | flush | background | limit | assign =>
      nofun

end Task

namespace Standard

variable {S : Standard}

theorem meets_append {base : Nat} {first second : List Task} :
    S.Meets base (first ++ second) ↔
      S.Meets (base + second.countP Task.isLeave) first ∧ S.Meets base second := by
  induction first with
  | nil => exact (iff_of_eq (true_and _)).symm
  | cons task first ih =>
      have hlevel : base + (first ++ second).countP Task.isLeave =
          base + second.countP Task.isLeave + first.countP Task.isLeave := by
        rw [List.countP_append]
        omega
      rw [List.cons_append, Meets, Meets, ih, hlevel, and_assoc]

theorem meets_singleton {level : Nat} {task : Task} (h : S.Suits level task) :
    S.Meets level [task] := ⟨h, trivial⟩

theorem meets_commands {level : Nat} {body : List Command} (h : ∀ c ∈ body, S.command level c) :
    S.Meets level (body.map .command) := by
  induction body with
  | nil => trivial
  | cons c body ih =>
      rcases List.forall_mem_cons.mp h with ⟨hc, hbody⟩
      refine ⟨?_, ih hbody⟩
      rw [Task.countP_isLeave_commands]
      exact hc

theorem exists_suits_of_mem {base : Nat} {tasks : List Task} (h : S.Meets base tasks)
    {task : Task} (hmem : task ∈ tasks) : ∃ level, S.Suits level task := by
  induction tasks with
  | nil => cases hmem
  | cons first rest ih =>
      rcases List.mem_cons.mp hmem with rfl | hmem
      · exact ⟨_, h.1⟩
      · exact ih h.2 hmem

/-- Whatever suits a level, it can be done on that level. -/
theorem Inherited.level_of_suits (hS : S.Inherited) {level : Nat} {task : Task}
    (h : S.Suits level task) : S.level level := by
  cases task with
  | command c => exact hS.level h
  | act | enter | rounds => exact h.1
  | call | leave => exact h

theorem Inherited.meets_ofCommand (hS : S.Inherited) {level : Nat} {c : Command}
    (h : S.command level c) (t : Turtle) : S.Meets level (Task.ofCommand c t).2 := by
  have hlevel := hS.level h
  cases c with
  | basic i =>
      refine meets_singleton ⟨hlevel, fun name p hdefine => ?_⟩
      exact absurd hdefine (Task.resolve_ne_define i t name p)
  | loop count body =>
      refine meets_singleton ⟨hlevel, hS.loop h, ?_⟩
      rw [Nat.zero_add]
      exact hS.rounds t h
  | condition test body =>
      simp only [Task.ofCommand]
      split
      · trivial
      · exact meets_commands (hS.condition h)
  | define name params body =>
      refine meets_singleton ⟨hlevel, fun _ p hdefine => ?_⟩
      cases hdefine
      exact hS.define h
  | call name args => exact meets_singleton hlevel

/-- What a task leaves to be done first meets what the task does. Of a call this has to
    be known, since the body comes from elsewhere. -/
theorem Inherited.meets_effect (hS : S.Inherited) {level : Nat} {task : Task} {t : Turtle}
    (h : S.Suits level task)
    (hcall : ∀ name args, task = .call name args → S.Meets level (task.effect t).2) :
    S.Meets level (task.effect t).2 := by
  cases task with
  | command c => exact hS.meets_ofCommand h t
  | act a => trivial
  | call name args => exact hcall name args rfl
  | enter frame body =>
      -- The body has one frame more around it, and leaving that one has not.
      refine meets_append.mpr ⟨?_, meets_singleton h.1⟩
      exact meets_commands h.2
  | rounds body left index =>
      cases left with
      | zero => trivial
      | succ left =>
          rcases h with ⟨hlevel, hbody, hrounds⟩
          refine ⟨⟨hlevel, hbody⟩, ⟨hlevel, hbody, ?_⟩, trivial⟩
          rw [Nat.add_right_comm]
          exact hrounds
  | leave => trivial

/-- A task leaves procedures that are as asked, if it is as asked. -/
theorem knows_effect {level : Nat} {task : Task} {t : Turtle} (h : S.Suits level task)
    (ht : S.Knows t) : S.Knows (task.effect t).1 := by
  intro name p hp
  -- Either the table is what it was, or the task has put a body there that was looked at.
  rcases task.procedures_effect t with hsame | ⟨other, q, rfl, hset⟩
  · rw [hsame] at hp
    exact ht name p hp
  · rw [hset] at hp
    by_cases hname : name = other
    · subst hname
      rw [Table.get?_set_self] at hp
      cases hp
      exact h.2 name p rfl
    · rw [Table.get?_set_of_ne _ hname] at hp
      exact ht name p hp

theorem knows_drop {t : Turtle} (h : S.Knows t) (task : Task) : S.Knows (task.drop t) := by
  cases task <;> exact h

/-- A call that goes through leaves the body to be run on a level that it is fit for. -/
theorem Lasting.meets_call (hS : S.Lasting) {level : Nat} {t : Turtle} (hlevel : S.level level)
    (ht : S.Knows t) (hdepth : level ≤ t.scopes.depth) (name : String) (args : List Scalar) :
    S.Meets level ((Task.call name args).effect t).2 := by
  simp only [Task.effect]
  cases hp : t.procedures.get? name with
  | none => trivial
  | some p =>
      -- A call goes through below the allowed depth, which is at most `maxDepth`.
      by_cases hallowed : t.scopes.depth < t.allowedDepth
      · have hmax := t.allowedDepth_le
        simp only [if_pos hallowed]
        exact meets_singleton ⟨hlevel, hS.call (ht name p hp) (by omega)⟩
      · simp only [if_neg hallowed]
        trivial

/-- The level of the first task is no more than the depth of the turtle. -/
theorem level_le_depth {base : List Bindings} {m : Moment} (h : m.Framed base) {task : Task}
    {rest : List Task} (htasks : m.tasks = task :: rest) :
    rest.countP Task.isLeave ≤ m.turtle.scopes.depth := by
  rcases h with ⟨frames, hlocals, hcount⟩
  rw [m.turtle.scopes.depth_eq, hlocals, List.length_append, hcount, htasks]
  have hle := (List.sublist_cons_self task rest).countP_le (p := Task.isLeave)
  omega

theorem Lasting.holds_step (hS : S.Lasting) {base : List Bindings} {m : Moment}
    (hframed : m.Framed base) (h : S.Holds m) : S.Holds m.step := by
  rcases h with ⟨hmeets, hknows⟩
  have hnext := m.next_step
  generalize m.step = m' at hnext ⊢
  cases hnext with
  | done p => exact ⟨hmeets, hknows⟩
  | refused rest => exact ⟨hmeets.2, hknows⟩
  | dropped bound t task rest => exact ⟨hmeets.2, knows_drop hknows task⟩
  | @paid t u task rest hpay =>
      -- What is paid for is counted and changes nothing that is looked at here.
      have hu : S.Knows u := by
        unfold Knows
        rw [Task.procedures_pay hpay]
        exact hknows
      have hdepth : 0 + rest.countP Task.isLeave ≤ u.scopes.depth := by
        rw [Nat.zero_add, Task.scopes_pay hpay]
        exact level_le_depth hframed rfl
      have heffect : S.Meets (0 + rest.countP Task.isLeave) (task.effect u).2 := by
        refine hS.meets_effect hmeets.1 fun name args htask => ?_
        subst htask
        exact hS.meets_call hmeets.1 hu hdepth name args
      exact ⟨meets_append.mpr ⟨heffect, hmeets.2⟩, knows_effect hmeets.1 hu⟩

/-- At every moment of a run the standard of its commands is met. -/
theorem Lasting.holds_after (hS : S.Lasting) {commands : List Command} {t : Turtle}
    (hcommands : ∀ c ∈ commands, S.command 0 c) (ht : S.Knows t) (n : Nat) :
    S.Holds ((Moment.start commands t).after n) := by
  induction n with
  | zero => exact ⟨meets_commands hcommands, ht⟩
  | succ n ih =>
      rw [Moment.after_succ]
      exact hS.holds_step (Moment.framed_after commands t n) ih

end Standard

end TurtleGraphics
