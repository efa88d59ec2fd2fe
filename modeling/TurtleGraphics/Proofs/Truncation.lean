import TurtleGraphics.Proofs.Composition
import TurtleGraphics.Proofs.Painting
import TurtleGraphics.Run

/-!
# Running Out of Budget Cuts a Run Short

Two runs of one program under two budgets do the same until the smaller budget is
used up. From there on the one run does nothing, and the other one only adds to
what both had: entries to the log and calls to the painter.

The two runs part at one charge, arbitrarily deep inside loops, conditions and
calls, and the rest of the longer run has nothing on the other side to be compared
with. `Progress.Truncates` therefore has two cases. Either neither run has been
stopped and their turtles differ in the budget only, or the first has been stopped
and its turtle comes *before* that of the second, which is all that the remaining
work can be held to. `Interruptible` is the property of a way to run that keeps
this going, and it is compositional.

Evaluating the arguments of a command comes before its charge. So what evaluation
reports is in the log of both runs even where the command is refused in one.

## Main definitions

* `Turtle.Before`: What one turtle reported and drew, another one went on from.
* `Progress.isStopped`: Whether a run was stopped.
* `Progress.Truncates`: A run under a budget against the same run under another.
* `Interruptible`: Ways to run that a smaller budget cuts short.
* `startTurtle`: The turtle with which a program starts.

## Theorems

* `Turtle.before_apply`: Actions go on from what was there.
* `interruptible_charge`: A charge is where two runs part.
* `compositional_interruptible`: Commands inherit being cut short.
* `runProgram_truncates`: A smaller budget cuts a program short.
* `run_cut_short`: The picture and the log of a run under a smaller budget.
-/

namespace TurtleGraphics

namespace Turtle

/-- What `t` has reported and drawn, `u` has gone on from. -/
structure Before (t u : Turtle) : Prop where
  log : t.log.entries.toList <+: u.log.entries.toList
  painter : ∃ calls, u.painter = t.painter.performAll calls

theorem Before.of_eq {t u : Turtle} (hlog : u.log = t.log) (hpainter : u.painter = t.painter) :
    t.Before u := by
  refine ⟨?_, [], ?_⟩
  · exact ⟨[], by rw [List.append_nil, hlog]⟩
  · rw [hpainter, Painter.performAll_nil]

theorem Before.refl (t : Turtle) : t.Before t := .of_eq rfl rfl

theorem Before.trans {t u v : Turtle} (h : t.Before u) (h' : u.Before v) : t.Before v := by
  rcases h.painter with ⟨first, hfirst⟩
  rcases h'.painter with ⟨second, hsecond⟩
  refine ⟨h.log.trans h'.log, first ++ second, ?_⟩
  rw [hsecond, hfirst, Painter.performAll_append]

theorem before_report (t : Turtle) (f : Fault) : t.Before (t.report f) := by
  refine ⟨?_, [], rfl⟩
  simp only [report, Log.toList_report]
  exact List.prefix_append _ _

theorem before_travel (t : Turtle) (target : Point) (penDown : Bool) :
    t.Before (t.travel target penDown) := by
  cases penDown with
  | false => exact .of_eq rfl rfl
  | true =>
      exact ⟨List.prefix_refl _, [.line (t.display t.pose.position) (t.display target)], rfl⟩

/-- An action goes on from what was there: it draws with at most one call and
    reports at most one problem. -/
theorem before_apply (a : Action) (t : Turtle) : t.Before (a.apply t) := by
  cases a with
  | turn amount clockwise => exact .of_eq rfl rfl
  | heading angle => exact .of_eq rfl rfl
  | forward distance penDown => exact before_travel t _ penDown
  | moveTo target penDown => exact before_travel t target penDown
  | push =>
      by_cases hroom : t.stack.length < maxSaved
      · simp only [Action.apply, savePose, if_pos hroom]
        exact .of_eq rfl rfl
      · simp only [Action.apply, savePose, if_neg hroom]
        exact before_report t .stackFull
  | pop =>
      rcases hstack : t.stack with _ | ⟨pose, stack⟩
      · simp only [Action.apply, restorePose, hstack]
        exact before_report t .stackEmpty
      · simp only [Action.apply, restorePose, hstack]
        exact .of_eq rfl rfl
  | step length => exact .of_eq rfl rfl
  | color c => exact ⟨List.prefix_refl _, [.color c], rfl⟩
  | width w => exact ⟨List.prefix_refl _, [.width w.abs], rfl⟩
  | flush mode => exact ⟨List.prefix_refl _, [.flush mode], rfl⟩
  | background c => exact ⟨List.prefix_refl _, [.background c], rfl⟩
  | limit depth => exact .of_eq rfl rfl
  | assign name v => exact .of_eq rfl rfl
  | define name procedure => exact .of_eq rfl rfl

theorem before_observe {α : Type} {x : Eval Turtle α} (hx : x.Reading) (t : Turtle) :
    t.Before (t.observe x).2 := by
  rcases observe_eq_of_reading hx t with ⟨r, hr⟩
  refine ⟨?_, [], ?_⟩
  · rw [hr]
    simp only [Log.toList_reportAll]
    exact List.prefix_append _ _
  · rw [hr, Painter.performAll_nil]

theorem before_charge (t : Turtle) : t.Before t.charge.turtle := by
  unfold charge
  cases t.budget with
  | none => exact .of_eq rfl rfl
  | some bound =>
      by_cases h : bound ≤ t.operations
      · simp only [if_pos h]
        exact .refl t
      · simp only [if_neg h]
        exact .of_eq rfl rfl

@[simp]
theorem budget_withBudget (b : Option Nat) (t : Turtle) : (t.withBudget b).budget = b := rfl

@[simp]
theorem withBudget_self (t : Turtle) : t.withBudget t.budget = t := rfl

/-- No action looks at the budget. -/
theorem apply_withBudget (a : Action) (b : Option Nat) (t : Turtle) :
    a.apply (t.withBudget b) = (a.apply t).withBudget b := by
  cases a with
  | forward distance penDown => cases penDown <;> rfl
  | moveTo target penDown => cases penDown <;> rfl
  | push =>
      change (if t.stack.length < maxSaved then _ else _) = withBudget b (if _ then _ else _)
      by_cases hroom : t.stack.length < maxSaved
      · rw [if_pos hroom, if_pos hroom]
        rfl
      · rw [if_neg hroom, if_neg hroom]
        rfl
  | pop =>
      have hsame : (t.withBudget b).stack = t.stack := rfl
      simp only [Action.apply, restorePose, hsame]
      cases t.stack <;> rfl
  | turn | heading | step | color | width | flush | background | limit | assign | define => rfl

end Turtle

namespace Progress

/-- Whether the bound on operations has stopped the turtle. -/
def isStopped : Progress → Bool
  | .running _ => false
  | .stopped _ _ => true

/-- What a run under the budget `N` comes to, against the same run under the budget
    `M`. As long as it goes on they differ in the budget only; once it is stopped,
    the other run goes on from it. -/
inductive Truncates (N M : Nat) : Progress → Progress → Prop where
  | running (t : Turtle) (h : t.budget = some N) :
      Truncates N M (.running t) (.running (t.withBudget (some M)))
  | stopped (t : Turtle) (p : Progress) (h : t.Before p.turtle) : Truncates N M (.stopped N t) p

end Progress

/-- A way to run that goes on from what was there, and that a smaller budget cuts
    short. -/
structure Interruptible (f : Turtle → Progress) : Prop where
  grows (t : Turtle) : t.Before (f t).turtle
  truncates {N M : Nat} (hle : N ≤ M) {t : Turtle} (ht : t.budget = some N) :
    Progress.Truncates N M (f t) (f (t.withBudget (some M)))

theorem Progress.before_andThen {f : Turtle → Progress} (hf : Interruptible f) (p : Progress) :
    p.turtle.Before (p.andThen f).turtle := by
  cases p with
  | running t => exact hf.grows t
  | stopped bound t => exact .refl t

theorem interruptible_andThen {f g : Turtle → Progress} (hf : Interruptible f)
    (hg : Interruptible g) : Interruptible fun t => (f t).andThen g := by
  refine ⟨fun t => (hf.grows t).trans (Progress.before_andThen hg (f t)), ?_⟩
  intro N M hle t ht
  have hfirst := hf.truncates hle ht
  generalize f t = p at hfirst
  generalize f (t.withBudget (some M)) = q at hfirst
  cases hfirst with
  | running u hu => exact hg.truncates hle hu
  | stopped u q hbefore =>
      -- The first run does nothing more, the second goes on from where it is.
      exact .stopped u _ (hbefore.trans (Progress.before_andThen hg q))

/-- A change of the turtle that does not look at the budget. -/
theorem interruptible_change {g : Turtle → Turtle} (hbefore : ∀ t : Turtle, t.Before (g t))
    (hbudget : ∀ b (t : Turtle), g (t.withBudget b) = (g t).withBudget b) :
    Interruptible fun t => .running (g t) := by
  refine ⟨hbefore, ?_⟩
  intro N M _ t ht
  have hkeep : (g t).budget = t.budget := by
    have hsame := hbudget t.budget t
    rw [Turtle.withBudget_self] at hsame
    exact (congrArg Turtle.budget hsame).trans (Turtle.budget_withBudget _ _)
  rw [hbudget]
  exact .running (g t) (hkeep.trans ht)

/-- A charge is where two runs part: the smaller budget can be used up while the
    larger one is not. -/
theorem interruptible_charge : Interruptible Turtle.charge := by
  refine ⟨Turtle.before_charge, ?_⟩
  intro N M hle t ht
  by_cases hused : N ≤ t.operations
  · have hstop : t.charge = .stopped N t := by
      simp only [Turtle.charge, ht, if_pos hused]
    have hsame : t.Before (t.withBudget (some M)) := .of_eq rfl rfl
    rw [hstop]
    exact .stopped t _ (hsame.trans (Turtle.before_charge _))
  · have hgo : t.charge = .running { t with operations := t.operations + 1 } := by
      simp only [Turtle.charge, ht, if_neg hused]
    have hgo' : (t.withBudget (some M)).charge
        = .running { t.withBudget (some M) with operations := t.operations + 1 } := by
      have hused' : ¬ M ≤ (t.withBudget (some M)).operations := by
        change ¬ M ≤ t.operations
        omega
      simp only [Turtle.charge, Turtle.budget_withBudget, if_neg hused']
      rfl
    rw [hgo, hgo']
    exact .running { t with operations := t.operations + 1 } ht

/-- A frame is put on top before and taken away after, whether the run was stopped
    inside or not. -/
theorem interruptible_framed {f : Turtle → Progress} (hf : Interruptible f) (frame : Bindings) :
    Interruptible fun t => (f (t.entered frame)).map Turtle.left := by
  have hleft : ∀ t : Turtle, t.Before t.left := fun t => .of_eq rfl rfl
  have hentered : ∀ t : Turtle, t.Before (t.entered frame) := fun t => .of_eq rfl rfl
  refine ⟨fun t => ?_, ?_⟩
  · rw [Progress.turtle_map]
    exact (hentered t).trans ((hf.grows _).trans (hleft _))
  · intro N M hle t ht
    have hinner := hf.truncates hle (t := t.entered frame) ht
    change Progress.Truncates N M _ ((f ((t.entered frame).withBudget (some M))).map _)
    generalize f (t.entered frame) = p at hinner
    generalize f ((t.entered frame).withBudget (some M)) = q at hinner
    cases hinner with
    | running u hu => exact .running u.left hu
    | stopped u q hbefore =>
        refine .stopped u.left _ ?_
        rw [Progress.turtle_map]
        exact ⟨(hbefore.trans (hleft _)).log, (hbefore.trans (hleft _)).painter⟩

theorem interruptible_within {f : Turtle → Progress} (hf : Interruptible f) (frame : Bindings) :
    Interruptible fun t => t.within frame f := by
  simp only [Turtle.within_eq]
  exact interruptible_andThen interruptible_charge (interruptible_framed hf frame)

theorem interruptible_perform (a : Action) : Interruptible fun t => t.perform a :=
  interruptible_andThen interruptible_charge
    (interruptible_change (Turtle.before_apply a) (Turtle.apply_withBudget a))

theorem interruptible_observe {α : Type} {x : Eval Turtle α} {f : α → Turtle → Progress}
    (hx : x.Reading) (hf : ∀ a, Interruptible (f a)) :
    Interruptible fun t => f (t.observe x).1 (t.observe x).2 := by
  refine ⟨fun t => (Turtle.before_observe hx t).trans ((hf _).grows _), ?_⟩
  intro N M hle t ht
  have hkeep : (t.observe x).2.budget = t.budget := by
    rcases Turtle.observe_eq_of_reading hx t with ⟨r, hr⟩
    rw [hr]
  simp only [Turtle.observe_withBudget hx]
  exact (hf _).truncates hle (hkeep.trans ht)

/-- A call looks at the procedures, the frames and the limit, but not at the
    budget, so both runs take the same way through it. -/
theorem interruptible_call {run : List Command → Turtle → Progress}
    (hrun : ∀ body, Interruptible (run body)) (name : String) (args : List Scalar) :
    Interruptible fun t => t.call run name args := by
  refine interruptible_andThen interruptible_charge ⟨fun t => ?_, ?_⟩
  · cases t.procedures.get? name with
    | none => exact Turtle.before_report t (.undefinedProcedure name)
    | some p =>
        by_cases hdepth : t.scopes.depth < t.allowedDepth
        · simp only [if_pos hdepth]
          exact (interruptible_within (hrun p.body) (p.frame args)).grows t
        · simp only [if_neg hdepth]
          exact .refl t
  · intro N M hle t ht
    -- The budget plays no part in which procedure there is and how deep calls may go.
    have hprocedures : (t.withBudget (some M)).procedures = t.procedures := rfl
    have hscopes : (t.withBudget (some M)).scopes = t.scopes := rfl
    have hallowed : (t.withBudget (some M)).allowedDepth = t.allowedDepth := rfl
    rw [hprocedures, hscopes, hallowed]
    cases t.procedures.get? name with
    | none => exact .running (t.report (.undefinedProcedure name)) ht
    | some p =>
        by_cases hdepth : t.scopes.depth < t.allowedDepth
        · simp only [if_pos hdepth]
          exact (interruptible_within (hrun p.body) (p.frame args)).truncates hle ht
        · simp only [if_neg hdepth]
          exact .running t ht

theorem compositional_interruptible : Compositional Interruptible where
  running := interruptible_change Turtle.Before.refl (fun _ _ => rfl)
  andThen := interruptible_andThen
  observe := interruptible_observe
  perform := interruptible_perform
  within := fun frame hf => interruptible_within hf frame
  call := fun name args hrun => interruptible_call hrun name args

/-- The turtle with which a program starts: what was wrong with the text of the
    program is in its log already. -/
def startTurtle (o : Options) (source : String) : Turtle :=
  ((Turtle.ofSize ⟨o.width, o.height⟩ o.maxOperations).load source).2

theorem runProgram_eq (o : Options) (source : String) :
    runProgram o source = runAll (Program.parse source).value (startTurtle o source) := rfl

theorem runProgram_truncates (width height : Scalar) (cursor : Bool) (source : String)
    {N M : Nat} (hle : N ≤ M) :
    Progress.Truncates N M (runProgram ⟨width, height, N, cursor⟩ source)
      (runProgram ⟨width, height, M, cursor⟩ source) :=
  (compositional_interruptible.runAll (Program.parse source).value).truncates hle
    (t := startTurtle ⟨width, height, N, cursor⟩ source) rfl

/-- A program draws on an empty canvas, so its painter is anchored whenever it
    ends. -/
theorem anchored_runProgram (o : Options) (source : String) :
    (runProgram o source).turtle.painter.Anchored := by
  have hgrows := (compositional_interruptible.runAll (Program.parse source).value).grows
    (startTurtle o source)
  rcases hgrows.painter with ⟨calls, hcalls⟩
  rw [runProgram_eq, hcalls]
  exact Painter.anchored_performAll (Painter.anchored_ofSize _) calls

namespace Progress

theorem before_settled (p : Progress) : p.turtle.Before p.settled := by
  cases p with
  | running t => exact .refl t
  | stopped bound t => exact Turtle.before_report t (.limitExceeded bound)

end Progress

/-- Without a cursor a run leaves behind the turtle of its program. -/
theorem run_of_no_cursor (width height : Scalar) (N : Nat) (source : String) :
    run ⟨width, height, N, false⟩ source =
      ⟨(runProgram ⟨width, height, N, false⟩ source).settled.operations,
        (runProgram ⟨width, height, N, false⟩ source).settled.log,
        (runProgram ⟨width, height, N, false⟩ source).settled.painter.finish⟩ := rfl

/-- A run under a smaller budget is cut short. If it is not stopped, the two runs
    leave the same behind. If it is, then its log is a prefix of the log of the
    other run but for the entry that records the stop, and its picture is a prefix
    of the picture of the other run but for a last path that may have been cut
    short. -/
theorem run_cut_short (width height : Scalar) (source : String) {N M : Nat} (hle : N ≤ M) :
    let short := run ⟨width, height, N, false⟩ source
    let full := run ⟨width, height, M, false⟩ source
    ((runProgram ⟨width, height, N, false⟩ source).isStopped = false →
      short.picture = full.picture ∧ short.log = full.log ∧
        short.operations = full.operations) ∧
    ((runProgram ⟨width, height, N, false⟩ source).isStopped = true →
      (∃ earlier : List Diagnostic,
        short.log.entries.toList = earlier ++ [(Fault.limitExceeded N).report] ∧
          earlier <+: full.log.entries.toList) ∧
        short.picture.CutFrom full.picture) := by
  intro short full
  have htruncates := runProgram_truncates width height false source hle
  have hanchored := anchored_runProgram ⟨width, height, N, false⟩ source
  have hshort : short = _ := run_of_no_cursor width height N source
  have hfull : full = _ := run_of_no_cursor width height M source
  rw [hshort, hfull]
  generalize runProgram ⟨width, height, N, false⟩ source = p at htruncates hanchored ⊢
  generalize runProgram ⟨width, height, M, false⟩ source = q at htruncates ⊢
  cases htruncates with
  | running u hu =>
      refine ⟨fun _ => ⟨rfl, rfl, rfl⟩, fun hstop => ?_⟩
      exact absurd hstop Bool.false_ne_true
  | stopped u q hbefore =>
      refine ⟨fun hrun => absurd hrun.symm Bool.false_ne_true, fun _ => ?_⟩
      have hsettled := hbefore.trans q.before_settled
      refine ⟨⟨u.log.entries.toList, Log.toList_report u.log _, hsettled.log⟩, ?_⟩
      rcases hsettled.painter with ⟨calls, hcalls⟩
      rw [hcalls]
      exact Painter.finish_cutFrom hanchored calls

/-- Two lines and a turn between them: one operation is enough for the first line
    only, and the path that was drawn is cut from the full one. -/
theorem run_cut_short_of_one :
    1 ≤ 3 ∧ (runProgram ⟨500.0, 500.0, 1, false⟩ "D+D").isStopped = true ∧
      (run ⟨500.0, 500.0, 1, false⟩ "D+D").picture.CutFrom
        (run ⟨500.0, 500.0, 3, false⟩ "D+D").picture := by
  have hstop : (runProgram ⟨500.0, 500.0, 1, false⟩ "D+D").isStopped = true := by decide +kernel
  exact ⟨by decide, hstop, ((run_cut_short 500.0 500.0 "D+D" (by decide)).2 hstop).2⟩

end TurtleGraphics
