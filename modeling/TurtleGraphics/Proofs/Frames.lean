import TurtleGraphics.Proofs.Stepwise

/-!
# The Chain of Frames

Entering the body of a loop or of a procedure puts a frame on the chain, and every
frame that was put there is taken away again, also when the run is stopped inside.
The global frame stays at the bottom, and assignments are the one thing that
changes it.

The argument counts. At each moment of a run the frames above those it started with
are as many as the frames still to be left, since a frame and the task to leave it
come and go together. So whenever a frame is about to be taken away there is one
above the global frame, and when nothing is left to be done the chain is as it was
in the beginning.

For the global frame a look at single moments is not enough, because evaluating the
value of an assignment and carrying the assignment out are two steps. An action
waits in front of all other tasks, so the one before it was evaluated at the step
before, and `Moment.Assigns` speaks of both steps.

## Main definitions

* `Scopes.chain`: The frames, the global one first.
* `Moment.Framed`: There are as many frames as there are frames to be left.
* `Moment.Assigns`: A moment in which a variable is set.

## Theorems

* `Task.exists_pushed`: A task puts as many frames on top as it leaves to be left.
* `Moment.framed_after`: Frames and frames to be left match at every moment.
* `Moment.assigned_of_globals_ne`: A global variable changes by assignment only.
* `chain_of_runAll`: The chain after a run, and at every moment of it.
-/

namespace TurtleGraphics

namespace Scopes

/-- All frames, the global one first and the innermost one last. -/
def chain (s : Scopes) : List Bindings := s.globals :: s.locals.reverse

theorem chain_ne_nil (s : Scopes) : s.chain ≠ [] := List.cons_ne_nil _ _

/-- With a frame above the global one, taking the last frame away leaves the global
    one in place. -/
theorem chain_pop {s : Scopes} (h : s.locals ≠ []) : s.pop.chain = s.chain.dropLast := by
  rcases List.exists_cons_of_ne_nil h with ⟨frame, rest, hlocals⟩
  simp only [chain, pop, hlocals, List.tail_cons, List.reverse_cons]
  rw [List.dropLast_cons_of_ne_nil (by simp), List.dropLast_concat]

end Scopes

namespace Task

def isLeave : Task → Bool
  | .leave => true
  | _ => false

theorem countP_isLeave_commands (body : List Command) :
    (body.map Task.command).countP isLeave = 0 := by
  simp [List.countP_eq_zero, isLeave]

/-- Evaluating the arguments of a command leaves all frames alone, and what the
    command asks for then leaves none. -/
theorem scopes_ofCommand (c : Command) (t : Turtle) :
    (ofCommand c t).1.scopes = t.scopes ∧ (ofCommand c t).2.countP isLeave = 0 := by
  cases c with
  | basic i => exact ⟨Turtle.scopes_observe (Eval.reading_resolve i) t, rfl⟩
  | loop count body => exact ⟨Turtle.scopes_observe (Eval.reading_arg count) t, rfl⟩
  | condition test body =>
      refine ⟨Turtle.scopes_observe (Eval.reading_arg test) t, ?_⟩
      simp only [ofCommand]
      split
      · rfl
      · exact countP_isLeave_commands body
  | define name params body => exact ⟨rfl, rfl⟩
  | call name args => exact ⟨Turtle.scopes_observe (Eval.reading_args args) t, rfl⟩

/-- A call leaves all frames alone until the body is entered. -/
theorem scopes_call (name : String) (args : List Scalar) (t : Turtle) :
    ((Task.call name args).effect t).1.scopes = t.scopes ∧
      ((Task.call name args).effect t).2.countP isLeave = 0 := by
  simp only [effect]
  cases t.procedures.get? name with
  | none => exact ⟨rfl, rfl⟩
  | some p =>
      by_cases hdepth : t.scopes.depth < t.allowedDepth
      · simp only [if_pos hdepth]
        exact ⟨trivial, rfl⟩
      · simp only [if_neg hdepth]
        exact ⟨trivial, rfl⟩

/-- A task that does not leave a frame puts as many on top as it leaves to be
    left. -/
theorem exists_pushed {task : Task} (h : task ≠ .leave) (t : Turtle) :
    ∃ pushed, (task.effect t).1.scopes.locals = pushed ++ t.scopes.locals ∧
      pushed.length = (task.effect t).2.countP isLeave := by
  cases task with
  | command c =>
      have hc := scopes_ofCommand c t
      exact ⟨[], congrArg Scopes.locals hc.1, hc.2.symm⟩
  | act a => exact ⟨[], t.locals_apply a, rfl⟩
  | call name args =>
      have hc := scopes_call name args t
      exact ⟨[], congrArg Scopes.locals hc.1, hc.2.symm⟩
  | enter frame body =>
      -- The one task that puts a frame on top has it left again after the body.
      refine ⟨[frame], rfl, ?_⟩
      rw [effect, List.countP_append, countP_isLeave_commands]
      rfl
  | rounds body left index => cases left <;> exact ⟨[], rfl, rfl⟩
  | leave => exact absurd rfl h

/-- A task changes the global frame only if it sets a variable. -/
theorem globals_effect (task : Task) (t : Turtle) :
    (task.effect t).1.scopes.globals = t.scopes.globals ∨
      ∃ name v, task = .act (.assign name v) ∧
        (task.effect t).1.scopes.globals = t.scopes.globals.set name v := by
  cases task with
  | command c => exact .inl (congrArg Scopes.globals (scopes_ofCommand c t).1)
  | act a =>
      rcases (t.applied a).scopes with h | ⟨name, v, rfl, h⟩
      · exact .inl (congrArg Scopes.globals h)
      · exact .inr ⟨name, v, rfl, congrArg Scopes.globals h⟩
  | call name args => exact .inl (congrArg Scopes.globals (scopes_call name args t).1)
  | enter frame body => exact .inl rfl
  | rounds body left index => cases left <;> exact .inl rfl
  | leave => exact .inl rfl

theorem scopes_pay {task : Task} {t u : Turtle} (h : task.pay t = .running u) :
    u.scopes = t.scopes := by
  unfold pay at h
  split at h
  · rw [(Turtle.of_charge_running h).1]
  · cases h
    rfl

/-- An instruction that comes to setting a variable is an assignment to it. -/
theorem exists_assign_of_resolve {i : Instruction} {t : Turtle} {name : String} {v : Scalar}
    (h : (t.observe i.resolve).1 = .assign name v) : ∃ value, i = .assign name value := by
  cases i with
  | assign other value =>
      cases h
      exact ⟨value, rfl⟩
  | turn amount clockwise => cases amount <;> cases h
  | forward distance penDown => cases distance <;> cases h
  | heading | moveTo | push | pop | step | color | width | flush | background | limit => cases h

/-- An action is asked for by a command that does one thing, and alone. -/
theorem of_act_mem {task : Task} {t : Turtle} {a : Action}
    (h : Task.act a ∈ (task.effect t).2) :
    (task.effect t).2 = [.act a] ∧
      ((∃ i, task = .command (.basic i) ∧ (t.observe i.resolve).1 = a) ∨
        ∃ name procedure, a = .define name procedure) := by
  cases task with
  | command c =>
      -- Instructions and definitions become one action each; all other commands ask
      -- for commands, rounds or a call.
      simp only [effect] at h ⊢
      cases c with
      | basic i =>
          simp only [ofCommand, List.mem_singleton, Task.act.injEq] at h ⊢
          exact ⟨by rw [h], .inl ⟨i, rfl, h.symm⟩⟩
      | define name params body =>
          simp only [ofCommand, List.mem_singleton, Task.act.injEq] at h ⊢
          exact ⟨by rw [h], .inr ⟨name, _, h⟩⟩
      | condition test body =>
          simp only [ofCommand] at h
          split at h <;> simp at h
      | loop count body => simp [ofCommand] at h
      | call name args => simp [ofCommand] at h
  | call name args =>
      simp only [effect] at h
      cases hp : t.procedures.get? name with
      | none => simp [hp] at h
      | some p =>
          simp only [hp] at h
          split at h <;> simp at h
  | act a => simp [effect] at h
  | enter frame body => simp [effect] at h
  | rounds body left index => cases left <;> simp [effect] at h
  | leave => simp [effect] at h

end Task

namespace Moment

/-- The frames above those of `base` are as many as the frames to be left. -/
def Framed (base : List Bindings) (m : Moment) : Prop :=
  ∃ frames, m.turtle.scopes.locals = frames ++ base ∧
    frames.length = m.tasks.countP Task.isLeave

/-- Leaving a frame takes one away on both sides of the count. -/
theorem Framed.left {base : List Bindings} {p p' : Progress} {rest : List Task}
    (h : Framed base ⟨p, .leave :: rest⟩)
    (hp : p'.turtle.scopes.locals = p.turtle.scopes.locals.tail) : Framed base ⟨p', rest⟩ := by
  rcases h with ⟨frames, hlocals, hcount⟩
  rw [List.countP_cons_of_pos rfl] at hcount
  rcases List.exists_cons_of_length_eq_add_one hcount with ⟨frame, frames, rfl⟩
  refine ⟨frames, ?_, Nat.succ.inj hcount⟩
  exact hp.trans (congrArg List.tail hlocals)

/-- Any other task that is done with changes nothing in the count. -/
theorem Framed.passed {base : List Bindings} {p p' : Progress} {task : Task} {rest : List Task}
    (h : Framed base ⟨p, task :: rest⟩) (htask : task ≠ .leave)
    (hp : p'.turtle.scopes.locals = p.turtle.scopes.locals) : Framed base ⟨p', rest⟩ := by
  rcases h with ⟨frames, hlocals, hcount⟩
  have hleave : ¬ task.isLeave = true := by
    cases task with
    | leave => exact absurd rfl htask
    | command | act | call | enter | rounds => exact Bool.false_ne_true
  rw [List.countP_cons_of_neg hleave] at hcount
  exact ⟨frames, hp.trans hlocals, hcount⟩

theorem framed_step {base : List Bindings} {m : Moment} (h : m.Framed base) :
    m.step.Framed base := by
  have hnext := m.next_step
  generalize m.step = m' at hnext ⊢
  cases hnext with
  | done p => exact h
  | @refused t task bound rest hop _ _ =>
      -- Leaving a frame is no operation, so it is never refused.
      refine h.passed ?_ rfl
      rintro rfl
      exact absurd hop Bool.false_ne_true
  | dropped bound t task rest =>
      by_cases htask : task = .leave
      · subst htask
        exact h.left rfl
      · exact h.passed htask (congrArg (Scopes.locals ∘ Turtle.scopes) (Task.drop_of_ne htask t))
  | @paid t u task rest hpay =>
      have hscopes := congrArg Scopes.locals (Task.scopes_pay hpay)
      by_cases htask : task = .leave
      · subst htask
        exact h.left (congrArg List.tail hscopes)
      · -- What the task puts on top matches what it leaves to be left.
        have hpassed : Framed base ⟨.running u, rest⟩ := h.passed htask hscopes
        rcases hpassed with ⟨frames, hlocals, hcount⟩
        rcases Task.exists_pushed htask u with ⟨pushed, hpushed, hlength⟩
        refine ⟨pushed ++ frames, ?_, ?_⟩
        · rw [List.append_assoc, ← hlocals]
          exact hpushed
        · rw [List.length_append, List.countP_append, hlength, hcount]

/-- Frames and frames to be left match at every moment of a run. -/
theorem framed_after (commands : List Command) (t : Turtle) (n : Nat) :
    ((start commands t).after n).Framed t.scopes.locals := by
  have hstart : (start commands t).Framed t.scopes.locals :=
    ⟨[], rfl, (Task.countP_isLeave_commands commands).symm⟩
  exact after_induction hstart (fun _ h => framed_step h) n

/-- Whenever a frame is about to be taken away there is one above the global one. -/
theorem Framed.locals_ne_nil {base : List Bindings} {m : Moment} (h : m.Framed base)
    (hleave : m.tasks.head? = some .leave) : m.turtle.scopes.locals ≠ [] := by
  rcases h with ⟨frames, hlocals, hcount⟩
  rcases m with ⟨p, _ | ⟨task, rest⟩⟩
  · cases hleave
  cases hleave
  rw [List.countP_cons_of_pos rfl] at hcount
  rw [hlocals]
  intro hnil
  rw [(List.append_eq_nil_iff.mp hnil).1] at hcount
  cases hcount

/-- Leaving a frame takes the frame on top away, in a run that goes on and in one that
    was stopped. -/
theorem scopes_step_of_leave {m : Moment} (hleave : m.tasks.head? = some .leave) :
    m.step.turtle.scopes = m.turtle.scopes.pop := by
  rcases m with ⟨p, _ | ⟨task, rest⟩⟩
  · cases hleave
  cases hleave
  cases p <;> rfl

/-- Actions wait in front of all other tasks. -/
def ActsFirst (m : Moment) : Prop := ∀ a, Task.act a ∉ m.tasks.tail

theorem actsFirst_step {m : Moment} (h : m.ActsFirst) : m.step.ActsFirst := by
  have hnext := m.next_step
  generalize m.step = m' at hnext ⊢
  cases hnext with
  | done p => exact h
  | refused rest => exact fun a ha => h a (List.mem_of_mem_tail ha)
  | dropped bound t task rest => exact fun a ha => h a (List.mem_of_mem_tail ha)
  | @paid t u task rest hpay =>
      -- If the task asks for an action it asks for nothing else, so the action is first.
      intro a ha
      rcases List.mem_append.mp (List.mem_of_mem_tail ha) with hmore | hold
      · rw [(Task.of_act_mem hmore).1] at ha
        exact h a ha
      · exact h a hold

theorem actsFirst_after (commands : List Command) (t : Turtle) (n : Nat) :
    ((start commands t).after n).ActsFirst := by
  have hstart : (start commands t).ActsFirst := by
    intro a ha
    have hmem := List.mem_of_mem_tail ha
    simp [start] at hmem
  exact after_induction hstart (fun _ h => actsFirst_step h) n

/-- A moment in which the command that sets a variable comes next and is carried
    out: one step evaluates its value, the next one sets the variable. -/
def Assigns (m : Moment) (name : String) : Prop :=
  ∃ t value u rest, m = ⟨.running t, .command (.basic (.assign name value)) :: rest⟩ ∧
    m.after 2 = ⟨.running u, rest⟩

/-- Where setting a variable waits to be carried out, its value was evaluated at the
    step before. -/
theorem eq_of_step_assign {m : Moment} (h : m.ActsFirst) {p : Progress} {name : String}
    {v : Scalar} {rest : List Task} (hstep : m.step = ⟨p, .act (.assign name v) :: rest⟩) :
    ∃ t value, m = ⟨.running t, .command (.basic (.assign name value)) :: rest⟩ := by
  have hnext := m.next_step
  rw [hstep] at hnext
  generalize hm' : (Moment.mk p (.act (.assign name v) :: rest)) = m' at hnext
  cases hnext with
  | done p => cases hm'
  | refused tasks =>
      cases hm'
      exact absurd List.mem_cons_self (h _)
  | dropped bound t task tasks =>
      cases hm'
      exact absurd List.mem_cons_self (h _)
  | @paid t u task tasks hpay =>
      -- No action waits behind the task, so this one is what the task asked for.
      injection hm' with _ htasks
      have hnone : Task.act (.assign name v) ∉ tasks := h _
      have hmem : Task.act (.assign name v) ∈ (task.effect u).2 := by
        have hhead : Task.act (.assign name v) ∈ (task.effect u).2 ++ tasks := by
          rw [← htasks]
          exact List.mem_cons_self
        exact (List.mem_append.mp hhead).resolve_right hnone
      rcases Task.of_act_mem hmem with ⟨heffect, ⟨i, rfl, hi⟩ | ⟨_, _, hdefine⟩⟩
      · rw [heffect] at htasks
        injection htasks with _ htasks
        subst htasks
        rcases Task.exists_assign_of_resolve hi with ⟨value, rfl⟩
        exact ⟨t, value, rfl⟩
      · cases hdefine

/-- A step changes a global variable only by setting it. -/
theorem eq_assign_of_globals_ne {m : Moment} {name : String}
    (h : m.step.turtle.scopes.globals.get? name ≠ m.turtle.scopes.globals.get? name) :
    ∃ t v rest u, m = ⟨.running t, .act (.assign name v) :: rest⟩ ∧
      m.step = ⟨.running u, rest⟩ := by
  have hnext := m.next_step
  generalize m.step = m' at hnext h ⊢
  cases hnext with
  | done p => exact absurd rfl h
  | refused rest => exact absurd rfl h
  | dropped bound t task rest =>
      have hglobals : (task.drop t).scopes.globals = t.scopes.globals := by cases task <;> rfl
      exact absurd (congrArg (Table.get? · name) hglobals) h
  | @paid t u task rest hpay =>
      have hscopes := Task.scopes_pay hpay
      change (task.effect u).1.scopes.globals.get? name ≠ t.scopes.globals.get? name at h
      rw [← hscopes] at h
      -- Only an assignment is left, and it must be one to this name.
      rcases Task.globals_effect task u with hsame | ⟨other, v, rfl, hset⟩
      · exact absurd (congrArg (Table.get? · name) hsame) h
      · by_cases hname : name = other
        · subst hname
          exact ⟨t, v, rest, _, rfl, rfl⟩
        · rw [hset, Table.get?_set_of_ne _ hname] at h
          exact absurd rfl h

/-- A global variable that is not what it was in the beginning was set by a command
    carried out meanwhile. -/
theorem assigned_of_globals_ne (commands : List Command) (t : Turtle) (name : String) (n : Nat)
    (h : ((start commands t).after n).turtle.scopes.globals.get? name ≠
      t.scopes.globals.get? name) :
    ∃ k, k + 2 ≤ n ∧ ((start commands t).after k).Assigns name := by
  induction n with
  | zero => exact absurd rfl h
  | succ n ih =>
      -- The variable was changed by the last step or before it.
      by_cases hbefore : ((start commands t).after n).turtle.scopes.globals.get? name =
          t.scopes.globals.get? name
      · rw [after_succ, ← hbefore] at h
        rcases eq_assign_of_globals_ne h with ⟨u, v, rest, w, hact, hstep⟩
        -- An action is never there in the beginning, so a step led to this moment.
        cases n with
        | zero =>
            rcases commands with _ | ⟨c, commands⟩ <;> cases hact
        | succ k =>
            rw [after_succ] at hact
            rcases eq_of_step_assign (actsFirst_after commands t k) hact with
              ⟨s, value, hcommand⟩
            refine ⟨k, Nat.le_refl _, s, value, w, rest, hcommand, ?_⟩
            rw [← after_add, after_succ]
            exact hstep
      · rcases ih hbefore with ⟨k, hk, hassigns⟩
        exact ⟨k, by omega, hassigns⟩

end Moment

/-- The chain of frames after a run, and at every moment of it. However the run ends,
    the chain has the length it had, and all frames but the global one are as they
    were; what a name stands for in the global frame has changed only if a command that
    sets it was carried out meanwhile. At every moment the chain has a first frame, and
    when its last frame is taken away there is another one before it. -/
theorem chain_of_runAll (commands : List Command) (t : Turtle) :
    let m := Moment.start commands t
    let u := (runAll commands t).turtle
    ∃ last, m.after last = ⟨runAll commands t, []⟩ ∧
      u.scopes.chain.length = t.scopes.chain.length ∧
      u.scopes.chain.tail = t.scopes.chain.tail ∧
      (∀ name, u.scopes.globals.get? name ≠ t.scopes.globals.get? name →
        ∃ n, n + 2 ≤ last ∧ (m.after n).Assigns name) ∧
      ∀ n, (m.after n).turtle.scopes.chain ≠ [] ∧
        ((m.after n).tasks.head? = some .leave →
          (m.after (n + 1)).turtle.scopes.chain = (m.after n).turtle.scopes.chain.dropLast ∧
            (m.after n).turtle.scopes.chain.dropLast ≠ []) := by
  intro m u
  have hlocals : u.scopes.locals = t.scopes.locals := keepsLocals_runAll commands t
  rcases Moment.reaches_runAll commands t with ⟨last, hlast⟩
  refine ⟨last, hlast, ?_, ?_, fun name hname => ?_, fun n => ⟨Scopes.chain_ne_nil _, ?_⟩⟩
  · rw [Scopes.chain, Scopes.chain, hlocals, List.length_cons, List.length_cons]
  · exact congrArg List.reverse hlocals
  · have hturtle : (m.after last).turtle = u := congrArg Moment.turtle hlast
    rw [← hturtle] at hname
    exact Moment.assigned_of_globals_ne commands t name last hname
  · intro hleave
    have hne := (Moment.framed_after commands t n).locals_ne_nil hleave
    rw [Moment.after_succ, Moment.scopes_step_of_leave hleave, Scopes.chain_pop hne]
    refine ⟨rfl, ?_⟩
    rw [← Scopes.chain_pop hne]
    exact Scopes.chain_ne_nil _

/-- A loop that sets a variable in the frames of two rounds. -/
theorem chain_of_runAll_loop :
    let commands := (Program.parse "R(2)\x7b$X($IT)\x7d").value
    let t := Turtle.ofSize ⟨500.0, 500.0⟩ 100
    (runAll commands t).turtle.scopes.globals.get? "X" ≠ t.scopes.globals.get? "X" ∧
      ∃ n, ((Moment.start commands t).after n).Assigns "X" := by
  intro commands t
  have hset : ((runAll commands t).turtle.scopes.globals.get? "X").isSome = true := by
    decide +kernel
  have hne : (runAll commands t).turtle.scopes.globals.get? "X" ≠
      t.scopes.globals.get? "X" := by
    intro heq
    rw [heq] at hset
    cases hset
  rcases chain_of_runAll commands t with ⟨_, _, _, _, hassigned, _⟩
  rcases hassigned "X" hne with ⟨n, _, hn⟩
  exact ⟨hne, n, hn⟩

end TurtleGraphics
