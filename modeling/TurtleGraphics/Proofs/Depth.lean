import TurtleGraphics.Proofs.Accounting
import TurtleGraphics.Proofs.Inheritance
import TurtleGraphics.Proofs.Nesting

/-!
# How Deep Frames Pile Up

Two bounds work together. Bodies are nested two hundred deep in the text, and a call is
refused with a thousand frames in place. Neither is a bound on frames: loops put frames on
top without asking how many there are, and procedures bring their bodies along to wherever
they are called.

A command on level `d` that has `k` more bodies nested inside comes to be at level `d + k`
in the end, unless there is a call. So `Standard.shallow` asks that the sum stays below a
cap. Calls only go through below level one thousand, and the body of a procedure has spent
one of its two hundred levels on being a body. This gives a cap of 1199 for all that is
done, and one of 200 for what is done outside of calls.

One more frame is possible than things can be done in. The body that is one level too deep
is left empty but stays a body, and a loop around it enters a frame just to leave it.
`exists_deepest` reaches that frame in both cases.

## Main definitions

* `Standard.shallow`: Commands that stay below a cap.
* `Moment.ActiveCall`, `Moment.InCall`: A call that has not come to its end.
* `Turtle.Affords`: A turtle that can be charged for more operations.
* `descentNodes`: A procedure that calls itself and then nests loops.

## Theorems

* `Standard.depth_le_of_meets`: The frames there are while tasks stay below a cap.
* `Moment.exists_outside`: The tasks outside of calls are those of the program itself.
* `reaches_loops`: Loops inside each other pile up their frames.
* `Descends.reaches_deepest`: Calls pile up theirs below them.
* `depth_of_run`: At most 1200 frames, and at most 201 outside of calls.
* `exists_deepest`: Both of them are reached.
-/

namespace TurtleGraphics

namespace Standard

/-- Commands that do nothing inside of more frames than the cap, unless they call a
    procedure. -/
def shallow (cap : Nat) : Standard where
  command level c := level + c.nesting ≤ cap ∧ c.nesting ≤ 200
  level level := level ≤ cap
  procedure body := ∀ c ∈ body, c.nesting < 200
  rounds _ := True

theorem inherited_shallow (cap : Nat) : (shallow cap).Inherited where
  level h := Nat.le_trans (Nat.le_add_right _ _) h.1
  loop {level count body} h c hc := by
    have hlt := nesting_lt_of_mem hc
    rcases h with ⟨hcap, hle⟩
    rw [Command.nesting] at hcap hle
    exact ⟨by omega, by omega⟩
  rounds _ _ := trivial
  condition {level test body} h c hc := by
    have hlt := nesting_lt_of_mem hc
    rcases h with ⟨hcap, hle⟩
    rw [Command.nesting] at hcap hle
    exact ⟨by omega, by omega⟩
  define {level name params body} h c hc := by
    have hlt := nesting_lt_of_mem hc
    rcases h with ⟨-, hle⟩
    rw [Command.nesting] at hle
    exact Nat.lt_of_lt_of_le hlt hle

/-- The deepest call leaves a thousand frames for the body it runs. -/
theorem lasting_shallow : (shallow 1199).Lasting where
  toInherited := inherited_shallow 1199
  call {level body} h hlevel c hc := by
    have hlt := h c hc
    have hmax : level < 1000 := hlevel
    exact ⟨by omega, by omega⟩

/-- Where all tasks stay below the cap there are no more frames than it, but for one that
    is about to be left. -/
theorem depth_le_of_meets {cap : Nat} {m : Moment} (hframed : m.Framed [])
    (h : (shallow cap).Meets 0 m.tasks) :
    m.turtle.scopes.depth ≤ cap + 1 ∧
      (m.tasks.head? ≠ some .leave → m.turtle.scopes.depth ≤ cap) := by
  rcases hframed with ⟨frames, hlocals, hcount⟩
  rw [List.append_nil] at hlocals
  rw [m.turtle.scopes.depth_eq, hlocals, hcount]
  -- The frames are those still to be left, and the first task is on the level of the
  -- frames that are left after it.
  generalize m.tasks = tasks at h ⊢
  rcases tasks with _ | ⟨task, rest⟩
  · exact ⟨Nat.zero_le _, fun _ => Nat.zero_le _⟩
  · have hlevel : 0 + rest.countP Task.isLeave ≤ cap :=
      (inherited_shallow cap).level_of_suits h.1
    rw [List.countP_cons]
    refine ⟨by split <;> omega, fun hhead => ?_⟩
    have hleave : ¬ task.isLeave = true := by
      cases task with
      | leave => exact absurd rfl hhead
      | command | act | call | enter | rounds => exact Bool.false_ne_true
    rw [if_neg hleave]
    omega

/-- A step keeps what is asked of tasks, or it is a call that goes through. -/
theorem Inherited.meets_step_or_call {S : Standard} (hS : S.Inherited) {m : Moment}
    (h : S.Meets 0 m.tasks) :
    S.Meets 0 m.step.tasks ∨
      ∃ name args first rest, m.tasks = .call name args :: rest ∧ S.Meets 0 rest ∧
        first ≠ [] ∧ m.step.tasks = first ++ rest := by
  have hnext := m.next_step
  generalize m.step = m' at hnext ⊢
  cases hnext with
  | done p => exact .inl h
  | refused rest => exact .inl h.2
  | dropped bound t task rest => exact .inl h.2
  | @paid t u task rest hpay =>
      -- A call that leaves nothing to be done was passed over.
      by_cases hquiet : ∀ name args, task = .call name args → (task.effect u).2 = []
      · refine .inl (meets_append.mpr ⟨hS.meets_effect h.1 fun name args htask => ?_, h.2⟩)
        rw [hquiet name args htask]
        trivial
      · simp only [not_forall] at hquiet
        rcases hquiet with ⟨name, args, rfl, hbody⟩
        exact .inr ⟨name, args, _, rest, rfl, h.2, hbody, rfl⟩

end Standard

namespace Moment

/-- After `n` steps a call that went through has not come to its end: there is something
    to be done before the tasks that waited behind the call. -/
def ActiveCall (m : Moment) (n : Nat) (rest : List Task) : Prop :=
  ∃ k name args, k < n ∧ (m.after k).tasks = .call name args :: rest ∧
    ∀ j, k < j → j ≤ n → rest.length < (m.after j).tasks.length

def InCall (m : Moment) (n : Nat) : Prop := ∃ rest, m.ActiveCall n rest

/-- A step changes the tasks in front of those that wait. -/
theorem exists_step_tasks {m : Moment} {task : Task} {rest : List Task}
    (h : m.tasks = task :: rest) : ∃ first, m.step.tasks = first ++ rest := by
  have hnext := m.next_step
  generalize m.step = m' at hnext ⊢
  cases hnext with
  | done p => cases h
  | refused tail | dropped bound t task tail =>
      cases h
      exact ⟨[], rfl⟩
  | paid tail hpay =>
      cases h
      exact ⟨_, rfl⟩

theorem ActiveCall.succ {m : Moment} {n : Nat} {rest : List Task} (h : m.ActiveCall n rest)
    (hlength : rest.length < (m.after (n + 1)).tasks.length) : m.ActiveCall (n + 1) rest := by
  rcases h with ⟨k, name, args, hk, htasks, hlonger⟩
  refine ⟨k, name, args, by omega, htasks, fun j hj hle => ?_⟩
  rcases Nat.eq_or_lt_of_le hle with rfl | hlt
  · exact hlength
  · exact hlonger j hj (Nat.le_of_lt_succ hlt)

/-- The tasks that wait behind an active call, or all tasks if there is none, meet what
    those of the program did. -/
theorem exists_outside {S : Standard} (hS : S.Inherited) {m : Moment} (h : S.Meets 0 m.tasks)
    (n : Nat) :
    ∃ inner rest, (m.after n).tasks = inner ++ rest ∧ S.Meets 0 rest ∧
      (inner ≠ [] → m.ActiveCall n rest) := by
  induction n with
  | zero => exact ⟨[], m.tasks, rfl, h, fun hne => absurd rfl hne⟩
  | succ n ih =>
      rcases ih with ⟨_ | ⟨task, inner⟩, rest, htasks, hrest, hactive⟩
      · -- No call is active, and the step may be one that becomes so.
        rw [List.nil_append] at htasks
        rw [← htasks] at hrest
        rcases hS.meets_step_or_call hrest with hmeets | ⟨name, args, first, tail, hcall, htail,
          hne, hstep⟩
        · rw [← after_succ] at hmeets
          exact ⟨[], _, rfl, hmeets, fun hne => absurd rfl hne⟩
        · rw [← after_succ] at hstep
          refine ⟨first, tail, hstep, htail, fun _ => ⟨n, name, args, by omega, hcall, ?_⟩⟩
          intro j hj hle
          have hjn : j = n + 1 := by omega
          have hpos := List.length_pos_iff.mpr hne
          rw [hjn, hstep, List.length_append]
          omega
      · -- The call stays active until nothing is left in front of what waits behind it.
        rw [List.cons_append] at htasks
        rcases exists_step_tasks htasks with ⟨first, hfirst⟩
        rw [← after_succ, ← List.append_assoc] at hfirst
        refine ⟨first ++ inner, rest, hfirst, hrest, fun hne => ?_⟩
        refine (hactive (List.cons_ne_nil _ _)).succ ?_
        have hpos := List.length_pos_iff.mpr hne
        rw [hfirst, List.length_append]
        omega

end Moment

/-- Acting leaves the frames above the global one alone. -/
theorem locals_performAll (actions : List Action) :
    KeepsLocals (Turtle.performAll actions) := by
  induction actions with
  | nil => exact fun _ => rfl
  | cons a rest ih => exact keepsLocals_andThen (compositional_keepsLocals.perform a) ih

theorem depth_drawing (o : Options) (source : String) (k : Nat) :
    (Turtle.performAll (Turtle.glyph.take k)
      (runProgram o source).settled.liftBudget).turtle.scopes.depth = 0 := by
  have hrun : (runProgram o source).turtle.scopes.locals = [] := keepsLocals_runAll _ _
  have hsettled : (runProgram o source).settled.scopes = (runProgram o source).turtle.scopes := by
    cases runProgram o source <;> rfl
  -- The program has left its frames, and no action of the glyph enters one.
  have hdrawn := locals_performAll (Turtle.glyph.take k) (runProgram o source).settled.liftBudget
  rw [Scopes.depth_eq, hdrawn]
  change (runProgram o source).settled.scopes.locals.length = 0
  rw [hsettled, hrun, List.length_nil]

-- Both bounds are reached. The frames are entered one by one and none of them is left, so
-- it suffices to follow the tasks in front.

/-- The turtle can be charged for so many more operations. -/
def Turtle.Affords (t : Turtle) (k : Nat) : Prop :=
  ∀ bound, t.budget = some bound → t.operations + k ≤ bound

/-- The turtle once it has been charged for an operation. -/
def Turtle.charged (t : Turtle) : Turtle := { t with operations := t.operations + 1 }

namespace Turtle.Affords

variable {t : Turtle} {j k : Nat}

theorem mono (h : t.Affords k) (hjk : j ≤ k) : t.Affords j := fun bound hbound =>
  Nat.le_trans (Nat.add_le_add_left hjk _) (h bound hbound)

theorem charged (h : t.Affords (k + 1)) : t.charged.Affords k := fun bound hbound => by
  have hle := h bound hbound
  change t.operations + 1 + k ≤ bound
  omega

theorem charge_eq (h : t.Affords (k + 1)) : t.charge = .running t.charged := by
  cases hcharge : t.charge with
  | running u => exact congrArg _ (of_charge_running hcharge).1
  | stopped bound u =>
      rcases of_charge_stopped hcharge with ⟨-, hbudget, hused⟩
      have hle := h bound hbudget
      omega

/-- An operation that can be charged for takes place. -/
theorem reaches_effect (h : t.Affords (k + 1)) (task : Task) (hop : task.isOperation = true)
    (rest : List Task) :
    (Moment.mk (.running t) (task :: rest)).Reaches
      ⟨.running (task.effect t.charged).1, (task.effect t.charged).2 ++ rest⟩ := by
  refine .head ?_
  simp only [Moment.step, Task.pay, hop, if_true, h.charge_eq]
  exact .refl _

theorem reaches_entered (h : t.Affords (k + 1)) (frame : Bindings) (body : List Command)
    (rest : List Task) :
    (Moment.mk (.running t) (.enter frame body :: rest)).Reaches
      ⟨.running (t.charged.entered frame), body.map .command ++ .leave :: rest⟩ := by
  have heffect := h.reaches_effect (.enter frame body) rfl rest
  simp only [Task.effect, List.append_assoc, List.singleton_append] at heffect
  exact heffect

end Turtle.Affords

/-- A parameter text that stands for a number is an argument with a fixed value. -/
theorem exists_constant {p : ParamText} {f : Scalar → Nat} {n : Nat}
    (h : (p.expression.bind Expression.constant?).map f = some n) (default : Scalar) :
    ∃ v, firstArg [p] default = ⟨.constant v, default⟩ ∧ f v = n := by
  rcases Option.map_eq_some_iff.mp h with ⟨v, hv, hn⟩
  rcases Option.bind_eq_some_iff.mp hv with ⟨e, he, hconstant⟩
  refine ⟨v, ?_, hn⟩
  cases e with
  | deferred program => cases hconstant
  | constant w =>
      cases hconstant
      rw [firstArg, List.map_singleton, List.head?_singleton, Option.join_some, he]
      rfl

/-- A loop that runs once enters its body. -/
theorem reaches_round {t : Turtle} {k : Nat} (h : t.Affords (k + 1)) (body : List Command)
    (rest : List Task) :
    ∃ frame, (Moment.mk (.running t)
        (.command (.loop (firstArg [oneText] 0.0) body) :: rest)).Reaches
      ⟨.running (t.charged.entered frame),
        body.map .command ++ .leave :: .rounds body 0 1 :: rest⟩ := by
  rcases exists_constant (p := oneText) (f := Scalar.wholeBelow) (n := 1) (by decide +kernel) 0.0
    with ⟨v, hone, hwhole⟩
  -- The count is evaluated, the only round begins, and its frame is entered.
  let frame := Turtle.roundFrame (Scalar.ofNat 0)
  have hcommand : (Moment.mk (.running t)
      (.command (.loop (firstArg [oneText] 0.0) body) :: rest)).step =
        ⟨.running t, .rounds body 1 0 :: rest⟩ := by
    rw [hone, ← hwhole]
    rfl
  have hrounds : (Moment.mk (.running t) (.rounds body 1 0 :: rest)).step =
      ⟨.running t, .enter frame body :: .rounds body 0 1 :: rest⟩ :=
    rfl
  refine ⟨frame, .head ?_⟩
  rw [hcommand]
  refine .head ?_
  rw [hrounds]
  exact h.reaches_entered frame body _

/-- Loops inside each other pile up their frames. -/
theorem reaches_loops (k more : Nat) {t : Turtle} (h : t.Affords k) (rest : List Task) :
    ∃ u tasks, (Moment.mk (.running t) ((loopsNested (more + k)).map .command ++ rest)).Reaches
        ⟨.running u, (loopsNested more).map .command ++ tasks⟩ ∧
      u.scopes.depth = t.scopes.depth + k := by
  induction k generalizing t rest with
  | zero => exact ⟨t, rest, .refl _, rfl⟩
  | succ k ih =>
      rcases reaches_round h (loopsNested (more + k)) rest with ⟨frame, hround⟩
      have hentered : (t.charged.entered frame).Affords k := h.charged
      rcases ih hentered _ with ⟨u, tasks, hreaches, hdepth⟩
      refine ⟨u, tasks, hround.trans hreaches, hdepth.trans ?_⟩
      change t.scopes.depth + 1 + k = t.scopes.depth + (k + 1)
      omega

/-- A limit on calls that is as high as it can be. -/
def thousandText : ParamText :=
  ⟨['1', '0', '0', '0'], by decide, by decide, by decide, by decide, by decide, by simp⟩

def descentName : Name := ⟨['F'], by decide, List.all_eq_true.mp rfl, by decide⟩

/-- A procedure that calls itself and then goes into two hundred loops. -/
def descentNodes : List Node :=
  [.plain .limit [thousandText],
    .define descentName [] (.call descentName [] :: loopNodes 200),
    .call descentName []]

/-- The body of the procedure. -/
def descentBody : List Command := .call descentName.string [] :: loopsNested 200

/-- What there is to do before the first call. -/
def descentStart : List Command :=
  [.basic (.limit (firstArg [thousandText] 100.0)), .define descentName.string [] descentBody]

theorem value_parse_descentNodes :
    (Program.parse (String.ofList (writeAll descentNodes))).value =
      descentStart ++ [.call descentName.string []] := by
  have hcommands : commandAll descentNodes = descentStart ++ [.call descentName.string []] := by
    simp only [descentNodes, commandAll, Node.command, commandAll_loopNodes]
    rfl
  rw [value_parse_writeAll, hcommands]
  refine pruned_eq_self fun c hc => ?_
  simp only [descentStart, List.cons_append, List.nil_append, List.mem_cons, List.not_mem_nil,
    or_false] at hc
  rcases hc with rfl | rfl | rfl
  · rw [Command.nesting]
    omega
  · rw [Command.nesting, descentBody, bodyNesting, bodyNesting_loopsNested, Command.nesting]
    omega
  · rw [Command.nesting]
    omega

/-- A turtle that knows the procedure and has the highest limit on calls. -/
structure Descends (t : Turtle) : Prop where
  known : t.procedures.get? descentName.string = some ⟨[], descentBody⟩
  allowed : t.allowedDepth = 1000

/-- The limit is set and the procedure is defined. -/
theorem reaches_descends {t : Turtle} (h : t.Affords 2) (rest : List Task) :
    ∃ u : Turtle, (Moment.mk (.running t) (descentStart.map .command ++ rest)).Reaches
        ⟨.running u, rest⟩ ∧
      Descends u ∧ u.budget = t.budget ∧ u.operations = t.operations + 2 ∧
      u.scopes = t.scopes := by
  -- What the limit comes to does not depend on the turtle.
  let blank := Turtle.ofSize ⟨500.0, 500.0⟩ 0
  rcases exists_constant (p := thousandText) (n := 1000)
    (f := fun v => (blank.setLimit (Scalar.floor v)).allowedDepth) (by decide +kernel) 100.0 with
    ⟨v, hthousand, hallowed⟩
  let limit := Action.limit (Scalar.floor v)
  let define := Action.define descentName.string ⟨[], descentBody⟩
  let limited := limit.apply t.charged
  have hlimited : limited.Affords 1 := h.charged
  have hresolved : (Moment.mk (.running t) (descentStart.map .command ++ rest)).step =
      ⟨.running t, .act limit ::
        .command (.define descentName.string [] descentBody) :: rest⟩ := by
    rw [descentStart, hthousand]
    rfl
  refine ⟨define.apply limited.charged, .head ?_, ⟨Table.get?_set_self _ _ _, hallowed⟩, rfl, rfl,
    rfl⟩
  rw [hresolved]
  refine (h.reaches_effect (.act limit) rfl _).trans (.head ?_)
  exact hlimited.reaches_effect (.act define) rfl rest

section

variable {t : Turtle} {k : Nat}

/-- A call that goes through enters the body of the procedure. -/
theorem Descends.reaches_call (ht : Descends t) (h : t.Affords (k + 2))
    (hdepth : t.scopes.depth < 1000) (rest : List Task) :
    ∃ u : Turtle, (Moment.mk (.running t)
        (.command (.call descentName.string []) :: rest)).Reaches
        ⟨.running u, descentBody.map .command ++ .leave :: rest⟩ ∧
      Descends u ∧ u.Affords k ∧ u.scopes.depth = t.scopes.depth + 1 := by
  have hallowed : t.charged.scopes.depth < t.charged.allowedDepth := by
    rw [show t.charged.allowedDepth = 1000 from ht.allowed]
    exact hdepth
  have hknown : t.charged.procedures.get? descentName.string = some ⟨[], descentBody⟩ := ht.known
  have hcalled := h.reaches_effect (.call descentName.string []) rfl rest
  simp only [Task.effect, hknown, if_pos hallowed, List.singleton_append] at hcalled
  have hentered := h.charged.reaches_entered (Procedure.frame ⟨[], descentBody⟩ []) descentBody rest
  exact ⟨_, .head (hcalled.trans hentered), ⟨ht.known, ht.allowed⟩, h.charged.charged, rfl⟩

/-- With a thousand frames in place a call is passed over. -/
theorem Descends.reaches_past (ht : Descends t) (h : t.Affords (k + 1))
    (hdepth : t.scopes.depth = 1000) (rest : List Task) :
    (Moment.mk (.running t) (.command (.call descentName.string []) :: rest)).Reaches
      ⟨.running t.charged, rest⟩ := by
  have hfull : ¬ t.charged.scopes.depth < t.charged.allowedDepth := by
    rw [show t.charged.allowedDepth = 1000 from ht.allowed]
    exact Nat.not_lt.mpr (Nat.le_of_eq hdepth.symm)
  have hknown : t.charged.procedures.get? descentName.string = some ⟨[], descentBody⟩ := ht.known
  have hcalled := h.reaches_effect (.call descentName.string []) rfl rest
  simp only [Task.effect, hknown, if_neg hfull, List.nil_append] at hcalled
  exact .head hcalled

/-- Calls pile up their frames as long as they go through, and the loops of the last one
    come on top of them. -/
theorem Descends.reaches_deepest (room : Nat) (ht : Descends t) (h : t.Affords (2 * room + 201))
    (hdepth : t.scopes.depth + room = 1000) (rest : List Task) :
    ∃ u tasks, (Moment.mk (.running t) (descentBody.map .command ++ rest)).Reaches
        ⟨.running u, tasks⟩ ∧ u.scopes.depth = 1200 := by
  induction room generalizing t rest with
  | zero =>
      have hpast := ht.reaches_past h hdepth ((loopsNested 200).map .command ++ rest)
      rcases reaches_loops 200 0 h.charged rest with ⟨u, tasks, hloops, hu⟩
      rw [Nat.zero_add] at hloops
      refine ⟨u, tasks, hpast.trans hloops, hu.trans ?_⟩
      change t.scopes.depth + 200 = 1200
      omega
  | succ room ih =>
      have hroom : t.Affords (2 * room + 201 + 2) := h.mono (by omega)
      rcases ht.reaches_call hroom (by omega) ((loopsNested 200).map .command ++ rest) with
        ⟨inner, hinner, hknows, haffords, hdeeper⟩
      rcases ih hknows haffords (by omega) (.leave :: ((loopsNested 200).map .command ++ rest)) with
        ⟨u, tasks, hreaches, hu⟩
      exact ⟨u, tasks, hinner.trans hreaches, hu⟩

end

theorem affords_ofProgram (source : String) :
    ((Turtle.ofSize ⟨500.0, 500.0⟩ 1000000).load source).2.Affords 1000000 := by
  have hzero : ((Turtle.ofSize ⟨500.0, 500.0⟩ 1000000).load source).2.operations = 0 := rfl
  rintro bound ⟨⟩
  omega

/-- A program that comes to be twelve hundred frames deep. -/
theorem exists_depth_descent :
    let m := Moment.ofProgram {} (String.ofList (writeAll descentNodes))
    ∃ n, (m.after n).turtle.scopes.depth = 1200 := by
  let source := String.ofList (writeAll descentNodes)
  let t := ((Turtle.ofSize ⟨500.0, 500.0⟩ 1000000).load source).2
  have hstart : Moment.ofProgram {} source = ⟨.running t,
      descentStart.map .command ++ [.command (.call descentName.string [])]⟩ := by
    change Moment.start (Program.parse source).value t = _
    rw [value_parse_descentNodes, Moment.start, List.map_append, List.map_singleton]
  have ht : t.Affords 1000000 := affords_ofProgram source
  rcases reaches_descends (ht.mono (by omega)) [.command (.call descentName.string [])] with
    ⟨first, hfirst, hknows, hbudget, hoperations, hscopes⟩
  have haffords : first.Affords (2 * 999 + 201 + 2) := by
    intro bound hbound
    rw [hbudget] at hbound
    have hle := ht bound hbound
    omega
  have hdepth : first.scopes.depth = 0 := congrArg Scopes.depth hscopes
  -- The first call gets to the body, and 999 more of them to the last one.
  rcases hknows.reaches_call haffords (by omega) [] with
    ⟨inner, hinner, hinside, hroom, hdeeper⟩
  rcases hinside.reaches_deepest 999 hroom (by omega) [.leave] with ⟨u, tasks, hdescent, hu⟩
  rcases hfirst.trans (hinner.trans hdescent) with ⟨n, hn⟩
  refine ⟨n, ?_⟩
  rw [hstart, hn]
  exact hu

/-- A program of loops goes through every depth up to the number of loops that are read. -/
theorem exists_depth_loops {k more total : Nat} (htotal : more + k = total) (h : total ≤ 201) :
    let m := Moment.ofProgram {} (String.ofList (writeAll (loopNodes total)))
    ∃ n tasks, (m.after n).tasks = (loopsNested more).map .command ++ tasks ∧
      (m.after n).turtle.scopes.depth = k := by
  subst htotal
  let source := String.ofList (writeAll (loopNodes (more + k)))
  let t := ((Turtle.ofSize ⟨500.0, 500.0⟩ 1000000).load source).2
  have hstart : Moment.ofProgram {} source =
      ⟨.running t, (loopsNested (more + k)).map .command ++ []⟩ := by
    change Moment.start (Program.parse source).value t = _
    rw [value_parse_writeAll, commandAll_loopNodes, pruned_loopsNested, Nat.min_eq_right h,
      List.append_nil, Moment.start]
  have ht : t.Affords k := (affords_ofProgram source).mono (by omega)
  rcases reaches_loops k more ht [] with ⟨u, tasks, ⟨n, hn⟩, hdepth⟩
  refine ⟨n, tasks, ?_, ?_⟩
  · rw [hstart, hn]
  · rw [hstart, hn]
    exact hdepth.trans (Nat.zero_add k)

/-- Loops inside each other, which define nothing. -/
def Standard.loopsOnly : Standard where
  command _ c := ∃ k, c = .loop (firstArg [oneText] 0.0) (loopsNested k)
  level _ := True
  procedure _ := False
  rounds _ := True

theorem Standard.command_loopsOnly {k : Nat} {c : Command} (h : c ∈ loopsNested k) (level : Nat) :
    loopsOnly.command level c := by
  cases k with
  | zero => cases h
  | succ k => exact ⟨k, List.mem_singleton.mp h⟩

theorem Standard.lasting_loopsOnly : loopsOnly.Lasting where
  level _ := trivial
  loop := by
    rintro level count body ⟨k, hk⟩ c hc
    cases hk
    exact command_loopsOnly hc _
  rounds _ _ := trivial
  condition := by
    rintro level test body ⟨k, ⟨⟩⟩
  define := by
    rintro level name params body ⟨k, ⟨⟩⟩
  call h := h.elim

/-- Where no procedure is ever known, no call goes through. -/
theorem Moment.not_inCall {m : Moment}
    (h : ∀ n name, (m.after n).turtle.procedures.get? name = none) (n : Nat) : ¬ m.InCall n := by
  rintro ⟨rest, k, name, args, hk, htasks, hlonger⟩
  have hlength := hlonger (k + 1) (Nat.lt_succ_self k) hk
  have hnone := h k
  rw [after_succ] at hlength
  have hnext := (m.after k).next_step
  generalize m.after k = now at hnext htasks hlength hnone
  generalize now.step = next at hnext hlength
  cases hnext with
  | done p => cases htasks
  | refused tail | dropped bound t task tail =>
      cases htasks
      exact absurd hlength (Nat.lt_irrefl _)
  | @paid t u task tail hpay =>
      cases htasks
      have hu : u.procedures.get? name = none := by
        rw [Task.procedures_pay hpay]
        exact hnone name
      simp only [Task.effect, hu, List.nil_append] at hlength
      exact absurd hlength (Nat.lt_irrefl _)

theorem not_inCall_loops (k n : Nat) :
    ¬ (Moment.ofProgram {} (String.ofList (writeAll (loopNodes k)))).InCall n := by
  let source := String.ofList (writeAll (loopNodes k))
  have hcommands : ∀ c ∈ (Program.parse source).value, Standard.loopsOnly.command 0 c := by
    rw [value_parse_writeAll, commandAll_loopNodes, pruned_loopsNested]
    exact fun c hc => Standard.command_loopsOnly hc 0
  have hnone : Standard.loopsOnly.Knows
      ((Turtle.ofSize ⟨500.0, 500.0⟩ 1000000).load source).2 := by
    rintro name p ⟨⟩
  refine Moment.not_inCall (fun j name => ?_) n
  have hholds := Standard.lasting_loopsOnly.holds_after hcommands hnone j
  exact Option.eq_none_iff_forall_ne_some.mpr fun p hp => hholds.knows name p hp

/-- The depth of frames at every moment of a run. There are at most 1200 frames above the
    global one, and at most 201 while no call is active. The last of them is only there for
    a body that is empty: unless a frame is left next, there are at most 1199 and 200.
    Drawing the cursor takes place in the global frame. -/
theorem depth_of_run (o : Options) (source : String) :
    let m := Moment.ofProgram o source
    let p := runProgram o source
    (∃ last, m.after last = ⟨p, []⟩) ∧
      (∀ n, (m.after n).turtle.scopes.depth ≤ 1200 ∧
        (¬ m.InCall n → (m.after n).turtle.scopes.depth ≤ 201) ∧
        ((m.after n).tasks.head? ≠ some .leave →
          (m.after n).turtle.scopes.depth ≤ 1199 ∧
            (¬ m.InCall n → (m.after n).turtle.scopes.depth ≤ 200))) ∧
      ∀ k, (Turtle.performAll (Turtle.glyph.take k) p.settled.liftBudget).turtle.scopes.depth =
        0 := by
  intro m p
  refine ⟨Moment.reaches_runProgram o source, fun n => ?_, depth_drawing o source⟩
  let t := ((Turtle.ofSize ⟨o.width, o.height⟩ o.maxOperations).load source).2
  have hframed : (m.after n).Framed [] := Moment.framed_after (Program.parse source).value t n
  -- All that is ever done stays below the cap that takes calls into account.
  have hcommands : ∀ c ∈ (Program.parse source).value, (Standard.shallow 1199).command 0 c := by
    intro c hc
    have hle := nesting_le_of_mem_parse hc
    exact ⟨by omega, hle⟩
  have hnone : (Standard.shallow 1199).Knows t := by
    rintro name q ⟨⟩
  have hall := Standard.depth_le_of_meets hframed
    (Standard.lasting_shallow.holds_after hcommands hnone n).meets
  -- Outside of calls the tasks are those of the program itself.
  have houtside : ¬ m.InCall n → (Standard.shallow 200).Meets 0 (m.after n).tasks := by
    intro hcall
    have hstart : (Standard.shallow 200).Meets 0 m.tasks := by
      refine Standard.meets_commands fun c hc => ?_
      have hle := nesting_le_of_mem_parse hc
      exact ⟨by omega, hle⟩
    rcases Moment.exists_outside (Standard.inherited_shallow 200) hstart n with
      ⟨inner, rest, htasks, hrest, hactive⟩
    have hnil : inner = [] := by
      by_contra hne
      exact hcall ⟨rest, hactive hne⟩
    rw [htasks, hnil]
    exact hrest
  refine ⟨hall.1, fun hcall => (Standard.depth_le_of_meets hframed (houtside hcall)).1,
    fun hhead => ⟨hall.2 hhead, fun hcall => ?_⟩⟩
  exact (Standard.depth_le_of_meets hframed (houtside hcall)).2 hhead

/-- Two hundred and one loops inside each other. The last one begins with two hundred
    frames in place and enters one more, which it leaves at once. -/
theorem depth_of_run_loops :
    let m := Moment.ofProgram {} (String.ofList (writeAll (loopNodes 201)))
    (∃ n, ¬ m.InCall n ∧ (m.after n).tasks.head? ≠ some .leave ∧
        (m.after n).turtle.scopes.depth = 200 ∧ (m.after n).turtle.scopes.depth ≤ 200) ∧
      ∃ n, ¬ m.InCall n ∧ (m.after n).turtle.scopes.depth = 201 ∧
        (m.after n).turtle.scopes.depth ≤ 201 ∧ (m.after n).tasks.head? = some .leave := by
  intro m
  rcases depth_of_run {} (String.ofList (writeAll (loopNodes 201))) with ⟨-, hdepth, -⟩
  have houtside : ∀ n, ¬ m.InCall n := not_inCall_loops 201
  have hlast : 1 + 200 = 201 := rfl
  rcases exists_depth_loops hlast (Nat.le_refl _) with ⟨n, tasks, htasks, hn⟩
  rcases exists_depth_loops (Nat.zero_add 201) (Nat.le_refl _) with ⟨k, _, _, hk⟩
  refine ⟨⟨n, houtside n, ?_, hn, ?_⟩, k, houtside k, hk, (hdepth k).2.1 (houtside k), ?_⟩
  · rw [htasks]
    exact nofun
  · exact ((hdepth n).2.2 (by rw [htasks]; exact nofun)).2 (houtside n)
  · -- With anything else to do there would be no more than two hundred frames.
    by_contra hhead
    have hle := ((hdepth k).2.2 hhead).2 (houtside k)
    omega

/-- Neither 200 frames outside of calls nor 1199 frames at all is a bound. -/
theorem exists_deepest :
    let loops := Moment.ofProgram {} (String.ofList (writeAll (loopNodes 201)))
    let descent := Moment.ofProgram {} (String.ofList (writeAll descentNodes))
    (∃ n, ¬ loops.InCall n ∧ (loops.after n).turtle.scopes.depth = 201) ∧
      (∃ n, (descent.after n).turtle.scopes.depth = 1200) ∧
      ¬ (∀ (o : Options) (source : String) (n : Nat),
          ((Moment.ofProgram o source).after n).turtle.scopes.depth ≤ 1199) ∧
      ¬ (∀ (o : Options) (source : String) (n : Nat), ¬ (Moment.ofProgram o source).InCall n →
          ((Moment.ofProgram o source).after n).turtle.scopes.depth ≤ 200) := by
  intro loops descent
  rcases exists_depth_loops (Nat.zero_add 201) (Nat.le_refl _) with ⟨n, _, _, hn⟩
  rcases exists_depth_descent with ⟨k, hk⟩
  have houtside := not_inCall_loops 201 n
  refine ⟨⟨n, houtside, hn⟩, ⟨k, hk⟩, fun h => ?_, fun h => ?_⟩
  · have hle := h {} (String.ofList (writeAll descentNodes)) k
    omega
  · have hle := h {} _ n houtside
    omega

end TurtleGraphics
