import TurtleGraphics.Proofs.Exhaustion
import TurtleGraphics.Proofs.Noninterference
import TurtleGraphics.Proofs.Wholes

/-!
# Loops Unroll

A loop that goes to the end does what its body does, as many times in a row as the loop has
rounds. All that is left of the loop is its price: entering a round is an operation of its
own. That holds as long as the body does not ask for the number of the round, and does not
call a procedure, which could ask for it or be refused because of the frame.

A round runs with a frame on top that the bare body does not have, and its operations are
ahead. Other frames come on top of that frame when a loop inside of the body is entered. So
the two runs are compared with a frame somewhere among the others (`Turtle.Underlaid`): it
lies beneath the frames of loops inside of the body and above those from before. A variable
reads alike on both sides if the frame does not bind it, which goes for all names but that of
the counter, or if a frame above binds it, which is so inside of another loop.

The run with the frame can be stopped where the bare one goes on, as it is ahead in its
operations. So nothing is said about runs that are stopped (`Carries`).

## Main definitions

* `Command.callFree`, `allCallFree`: Commands that call no procedure.
* `Command.outerReads`, `outerReadsOf`: The variables that are read outside of loops.
* `Turtle.later`: A turtle that is ahead by some operations.
* `Turtle.Underlaid`: A turtle with the frame of a round beneath others.
* `Carries`: Ways to run that come to the same without the frame.

## Theorems

* `Turtle.Underlaid.read`: Variables read alike with and without the frame.
* `carries_runWith`, `carries_runAllWith`: Commands come to the same without the frame.
* `iterate_unrolls`: The rounds of a loop come to the same as bare runs of its body.
* `runAll_replicate`: Running a list again and again, and copies of it one after another.
* `loop_unrolls`: A loop does what copies of its body do.
-/

namespace TurtleGraphics

mutual

/-- Whether a command calls no procedure. A definition calls none, whatever the body of the
    procedure does later on. -/
def Command.callFree : Command → Bool
  | .basic _ | .define _ _ _ => true
  | .loop _ body | .condition _ body => allCallFree body
  | .call _ _ => false

/-- Whether some commands call no procedure. -/
def allCallFree : List Command → Bool
  | [] => true
  | c :: rest => c.callFree && allCallFree rest

end

mutual

/-- The variables that a command reads when it runs, apart from those in the body of a loop.
    The count of a loop is evaluated before the first round, so it is not in the body. -/
def Command.outerReads : Command → List String
  | .basic i => i.reads
  | .loop count _ => count.reads
  | .condition test body => test.reads ++ outerReadsOf body
  | .define _ _ _ => []
  | .call _ args => args.flatMap Arg.reads

/-- The variables that some commands read when they run, apart from those in bodies of
    loops. -/
def outerReadsOf : List Command → List String
  | [] => []
  | c :: rest => c.outerReads ++ outerReadsOf rest

end

namespace Turtle

/-- The turtle with some more operations charged. -/
def later (k : Nat) (t : Turtle) : Turtle := { t with operations := t.operations + k }

/-- No action looks at the operations. -/
theorem apply_later (a : Action) (k : Nat) (t : Turtle) :
    a.apply (t.later k) = (a.apply t).later k := by
  cases a with
  | forward distance penDown => cases penDown <;> rfl
  | moveTo target penDown => cases penDown <;> rfl
  | push =>
      have hsame : (t.later k).stack = t.stack := rfl
      simp only [Action.apply, savePose, hsame]
      split <;> rfl
  | pop =>
      have hsame : (t.later k).stack = t.stack := rfl
      simp only [Action.apply, restorePose, hsame]
      cases t.stack <;> rfl
  | turn | heading | step | color | width | flush | background | limit | assign | define => rfl

/-- The name reads alike beneath these frames, with or without the frame of a round: it is
    not that of the counter, or one of the frames above binds the counter. -/
def Visible (inner : List Bindings) (name : String) : Prop :=
  name = counterName → (inner.findSome? (·.get? counterName)).isSome = true

/-- Everything reads alike inside of another loop. -/
theorem visible_roundFrame (index : Scalar) (inner : List Bindings) (name : String) :
    Visible (roundFrame index :: inner) name := by
  intro _
  rw [List.findSome?_cons, roundFrame, Table.get?_set_self]
  rfl

/-- The turtle `t` is `u` with the frame of a round beneath the frames `inner`, and ahead by
    some operations. -/
structure Underlaid (index : Scalar) (base : List Bindings) (k : Nat) (inner : List Bindings)
    (u t : Turtle) : Prop where
  rest : t = (u.later k).withScopes t.scopes
  globals : t.scopes.globals = u.scopes.globals
  bare : u.scopes.locals = inner ++ base
  locals : t.scopes.locals = inner ++ roundFrame index :: base

namespace Underlaid

variable {index : Scalar} {base : List Bindings} {k : Nat} {inner : List Bindings}
  {u t : Turtle}

theorem get?_eq (h : Underlaid index base k inner u t) {name : String}
    (hname : Visible inner name) : t.scopes.get? name = u.scopes.get? name := by
  have hlocals : t.scopes.locals.findSome? (·.get? name) =
      u.scopes.locals.findSome? (·.get? name) := by
    rw [h.locals, h.bare, List.findSome?_append, List.findSome?_append, List.findSome?_cons]
    by_cases hcounter : name = counterName
    · -- The counter is found in a frame above, and the search ends there.
      subst hcounter
      rcases Option.isSome_iff_exists.mp (hname rfl) with ⟨v, hv⟩
      rw [hv]
      rfl
    · rw [roundFrame, Table.get?_set_of_ne _ hcounter]
      rfl
  rw [Scopes.get?, Scopes.get?, hlocals, h.globals]

/-- A change that treats both sides alike, and leaves the frames alone, keeps the frame
    where it is. -/
theorem change (h : Underlaid index base k inner u t) {f : Turtle → Turtle}
    (hf : f ((u.later k).withScopes t.scopes) = ((f u).later k).withScopes t.scopes)
    (hscopes : (f u).scopes = u.scopes) : Underlaid index base k inner (f u) (f t) := by
  have hsame : (f t).scopes = t.scopes := by
    rw [h.rest, hf]
    rfl
  refine ⟨?_, ?_, ?_, ?_⟩
  · rw [hsame, ← hf, ← h.rest]
  · rw [hsame, hscopes, h.globals]
  · rw [hscopes, h.bare]
  · rw [hsame, h.locals]

theorem read (h : Underlaid index base k inner u t) {name : String}
    (hname : Visible inner name) :
    (Turtle.read name u).1 = (Turtle.read name t).1 ∧
      Underlaid index base k inner (Turtle.read name u).2 (Turtle.read name t).2 := by
  have hget := h.get?_eq hname
  rcases h with ⟨hrest, hglobals, hbare, hlocals⟩
  rw [hrest]
  unfold Turtle.read
  cases Builtin.ofName? name with
  | some b => cases b <;> exact ⟨rfl, rfl, hglobals, hbare, hlocals⟩
  | none => exact ⟨hget.symm, rfl, hglobals, hbare, hlocals⟩

theorem agreeOn :
    Variables.AgreeOn (Visible inner) (Underlaid index base k inner) :=
  fun _ hname _ _ h => h.read hname

theorem observe (h : Underlaid index base k inner u t) {α : Type} {x : Eval Turtle α}
    (hx : x.ReadsOnly (Visible inner)) :
    (u.observe x).1 = (t.observe x).1 ∧
      Underlaid index base k inner (u.observe x).2 (t.observe x).2 := by
  have hagrees := hx _ agreeOn u t h
  refine ⟨hagrees.value, ?_⟩
  simp only [Turtle.observe, ← hagrees.faults]
  exact hagrees.context.change
    (f := fun t => { t with log := t.log.reportAll (x u).faults }) rfl rfl

theorem apply (h : Underlaid index base k inner u t) (a : Action) :
    Underlaid index base k inner (a.apply u) (a.apply t) := by
  by_cases ha : ∃ name v, a = .assign name v
  · -- An assignment is to the global frame, which is the same on both sides.
    rcases ha with ⟨name, v, rfl⟩
    rcases h with ⟨hrest, hglobals, hbare, hlocals⟩
    rw [hrest]
    exact ⟨rfl, congrArg (·.set name v) hglobals, hbare, hlocals⟩
  · have hassign : ∀ name v, a ≠ .assign name v := fun name v heq => ha ⟨name, v, heq⟩
    refine h.change (f := fun t => a.apply t) ?_ ?_
    · rw [apply_withScopes hassign, apply_later]
    · rcases (u.applied a).scopes with hsame | ⟨name, v, heq, -⟩
      · exact hsame
      · exact absurd heq (hassign name v)

/-- What can be charged for with the frame can be charged for without it. -/
theorem charge (h : Underlaid index base k inner u t) {t' : Turtle}
    (hcharge : t.charge = .running t') :
    ∃ u', u.charge = .running u' ∧ Underlaid index base k inner u' t' := by
  rcases of_charge_running hcharge with ⟨rfl, hleft⟩
  cases hu : u.charge with
  | running u' =>
      rcases of_charge_running hu with ⟨rfl, -⟩
      refine ⟨_, rfl, h.change (f := fun t => { t with operations := t.operations + 1 }) ?_ rfl⟩
      simp only [later, withScopes, Nat.add_right_comm]
  | stopped bound u' =>
      rcases of_charge_stopped hu with ⟨-, hbound, hused⟩
      have hbudget : t.budget = u.budget := by
        rw [h.rest]
        rfl
      have hoperations : t.operations = u.operations + k := by
        rw [h.rest]
        rfl
      have hlt := hleft bound (hbudget.trans hbound)
      omega

theorem entered (h : Underlaid index base k inner u t) (frame : Bindings) :
    Underlaid index base k (frame :: inner) (u.entered frame) (t.entered frame) := by
  rcases h with ⟨hrest, hglobals, hbare, hlocals⟩
  rw [hrest]
  exact ⟨rfl, hglobals, congrArg (frame :: ·) hbare, congrArg (frame :: ·) hlocals⟩

theorem left {frame : Bindings} (h : Underlaid index base k (frame :: inner) u t) :
    Underlaid index base k inner u.left t.left := by
  rcases h with ⟨hrest, hglobals, hbare, hlocals⟩
  rw [hrest]
  exact ⟨rfl, hglobals, congrArg List.tail hbare, congrArg List.tail hlocals⟩

end Underlaid

end Turtle

/-- A way to run that goes to the end without the frame of a round if it does so with it,
    and comes to the same but for the frame. -/
def Carries (index : Scalar) (base : List Bindings) (k : Nat) (inner : List Bindings)
    (f : Turtle → Progress) : Prop :=
  ∀ u t t' : Turtle, Turtle.Underlaid index base k inner u t → f t = .running t' →
    ∃ u', f u = .running u' ∧ Turtle.Underlaid index base k inner u' t'

theorem Progress.exists_of_andThen {p : Progress} {f : Turtle → Progress} {t : Turtle}
    (h : p.andThen f = .running t) : ∃ s, p = .running s ∧ f s = .running t := by
  cases p with
  | running s => exact ⟨s, rfl, h⟩
  | stopped bound s => cases h

theorem Progress.exists_of_map {p : Progress} {f : Turtle → Turtle} {t : Turtle}
    (h : p.map f = .running t) : ∃ s, p = .running s ∧ t = f s := by
  cases p with
  | running s =>
      cases h
      exact ⟨s, rfl, rfl⟩
  | stopped bound s => cases h

section

variable {index : Scalar} {base : List Bindings} {k : Nat} {inner : List Bindings}

theorem carries_running : Carries index base k inner .running := by
  intro u t t' h hrun
  cases hrun
  exact ⟨u, rfl, h⟩

theorem Carries.andThen {f g : Turtle → Progress} (hf : Carries index base k inner f)
    (hg : Carries index base k inner g) :
    Carries index base k inner fun t => (f t).andThen g := by
  intro u t t' h hrun
  rcases Progress.exists_of_andThen hrun with ⟨s, hs, hrest⟩
  rcases hf u t s h hs with ⟨u₁, hu₁, h₁⟩
  rcases hg u₁ s t' h₁ hrest with ⟨u', hu', h'⟩
  refine ⟨u', ?_, h'⟩
  simp only [hu₁, Progress.andThen_running, hu']

theorem carries_charge : Carries index base k inner Turtle.charge :=
  fun _ _ _ h hcharge => h.charge hcharge

theorem carries_perform (a : Action) : Carries index base k inner fun t => t.perform a := by
  refine carries_charge.andThen ?_
  intro u t t' h hrun
  cases hrun
  exact ⟨a.apply u, rfl, h.apply a⟩

theorem Carries.observe {α : Type} {x : Eval Turtle α} {f : α → Turtle → Progress}
    (hx : x.ReadsOnly (Turtle.Visible inner)) (hf : ∀ a, Carries index base k inner (f a)) :
    Carries index base k inner fun t => f (t.observe x).1 (t.observe x).2 := by
  intro u t t' h hrun
  rcases h.observe hx with ⟨hvalue, hobserved⟩
  simp only [← hvalue] at hrun
  exact hf _ _ _ t' hobserved hrun

theorem Carries.within {frame : Bindings} {f : Turtle → Progress}
    (hf : Carries index base k (frame :: inner) f) :
    Carries index base k inner fun t => t.within frame f := by
  refine carries_charge.andThen ?_
  intro u t t' h hrun
  rcases Progress.exists_of_map hrun with ⟨s, hs, rfl⟩
  rcases hf _ _ s (h.entered frame) hs with ⟨u', hu', h'⟩
  refine ⟨u'.left, ?_, h'.left⟩
  change (f (u.entered frame)).map Turtle.left = _
  rw [hu']
  rfl

/-- The rounds of a loop inside of the body. Each has a frame of its own above. -/
theorem carries_iterate {f : Turtle → Progress}
    (hf : ∀ i, Carries index base k (Turtle.roundFrame i :: inner) f) (rounds i : Nat) :
    Carries index base k inner (Turtle.iterate f rounds i) := by
  induction rounds generalizing i with
  | zero => exact carries_running
  | succ rounds ih => exact (hf (Scalar.ofNat i)).within.andThen (ih (i + 1))

end

section

variable (run : List Command → Turtle → Progress) (index : Scalar) (base : List Bindings) (k : Nat)

mutual

/-- A command comes to the same without the frame, by cases. The frames above grow where a
    loop inside of the body is entered, and from there on everything reads alike. -/
theorem carries_runWith (inner : List Bindings) :
    (c : Command) → c.callFree = true → (∀ name ∈ c.outerReads, Turtle.Visible inner name) →
      Carries index base k inner (Command.runWith run c)
  | .basic i, _, hreads =>
      .observe ((Eval.inherited_readsOnly _).resolve i hreads) carries_perform
  | .loop count body, hcalls, hreads =>
      .observe ((Eval.inherited_readsOnly _).arg count hreads) fun n =>
        carries_iterate
          (fun i => carries_runAllWith (Turtle.roundFrame i :: inner) body hcalls
            fun name _ => Turtle.visible_roundFrame i inner name)
          (Scalar.wholeBelow n) 0
  | .condition test body, hcalls, hreads => by
      rw [Command.outerReads, List.forall_mem_append] at hreads
      refine Carries.observe ((Eval.inherited_readsOnly _).arg test hreads.1)
        (f := fun v t => if v == 0.0 then .running t else TurtleGraphics.runAllWith run body t)
        (fun v => ?_)
      by_cases hv : (v == 0.0) = true
      · simp only [hv, if_true]
        exact carries_running
      · simp only [hv]
        exact carries_runAllWith inner body hcalls hreads.2
  | .define name params body, _, _ => carries_perform (.define name ⟨params, body⟩)
  | .call name args, hcalls, _ => Bool.noConfusion hcalls

/-- Commands one after another come to the same without the frame. -/
theorem carries_runAllWith (inner : List Bindings) :
    (commands : List Command) → allCallFree commands = true →
      (∀ name ∈ outerReadsOf commands, Turtle.Visible inner name) →
      Carries index base k inner (runAllWith run commands)
  | [], _, _ => carries_running
  | c :: rest, hcalls, hreads => by
      rw [allCallFree, Bool.and_eq_true] at hcalls
      rw [outerReadsOf, List.forall_mem_append] at hreads
      exact (carries_runWith inner c hcalls.1 hreads.1).andThen
        (carries_runAllWith inner rest hcalls.2 hreads.2)

end

end

/-- A body that does not ask for the counter runs without the frame of a round as it does
    with it. -/
theorem carries_runAll {body : List Command} (hcalls : allCallFree body = true)
    (hreads : Turtle.counterName ∉ outerReadsOf body) (index : Scalar) (base : List Bindings)
    (k : Nat) : Carries index base k [] (runAll body) := by
  refine carries_runAllWith (runAllAt 999) index base k [] body hcalls fun name hname heq => ?_
  rw [heq] at hname
  exact absurd hname hreads

/-- The frames are all that there is: their number is known from them. -/
theorem Scopes.eq_of_frames {s s' : Scopes} (hglobals : s.globals = s'.globals)
    (hlocals : s.locals = s'.locals) : s = s' := by
  have hdepth : s.depth = s'.depth := by rw [s.depth_eq, s'.depth_eq, hlocals]
  cases s
  cases s'
  simp only at hglobals hlocals hdepth
  subst hglobals hlocals hdepth
  rfl

/-- With the frame taken away, the turtles differ in their operations only. -/
theorem Turtle.Underlaid.left_eq {index : Scalar} {base : List Bindings} {k : Nat}
    {u t : Turtle} (h : Underlaid index base k [] u t) : t.left = u.later k := by
  have hscopes : t.scopes.pop = u.scopes :=
    Scopes.eq_of_frames h.globals ((congrArg List.tail h.locals).trans h.bare.symm)
  rw [Turtle.left, hscopes, h.rest]
  rfl

/-- One round of a loop comes to the same as the bare body, with one more operation. -/
theorem within_unrolls {f : Turtle → Progress} {index : Scalar} {k : Nat} {u t' : Turtle}
    (hf : Carries index u.scopes.locals (k + 1) [] f)
    (h : (u.later k).within (Turtle.roundFrame index) f = .running t') :
    ∃ u', f u = .running u' ∧ t' = u'.later (k + 1) := by
  rw [Turtle.within_eq] at h
  rcases Progress.exists_of_andThen h with ⟨t, hcharge, hrun⟩
  rcases Turtle.of_charge_running hcharge with ⟨rfl, -⟩
  rcases Progress.exists_of_map hrun with ⟨s, hs, rfl⟩
  have hround : Turtle.Underlaid index u.scopes.locals (k + 1) [] u
      (Turtle.entered (Turtle.roundFrame index)
        { u.later k with operations := (u.later k).operations + 1 }) := ⟨rfl, rfl, rfl, rfl⟩
  rcases hf u _ s hround hs with ⟨u', hu', h'⟩
  exact ⟨u', hu', h'.left_eq⟩

/-- The rounds of a loop come to the same as bare runs of the body in a row. The loop is
    ahead by one operation more after each round. -/
theorem iterate_unrolls {f : Turtle → Progress}
    (hf : ∀ index base k, Carries index base k [] f) (rounds : Nat) {i k : Nat} {u t' : Turtle}
    (h : (u.later k).iterate f rounds i = .running t') :
    ∃ u', (Progress.andThen · f)^[rounds] (.running u) = .running u' ∧
      t' = u'.later (k + rounds) := by
  induction rounds generalizing i k u with
  | zero =>
      cases h
      exact ⟨u, rfl, rfl⟩
  | succ rounds ih =>
      rw [Turtle.iterate] at h
      rcases Progress.exists_of_andThen h with ⟨t, hround, hrest⟩
      rcases within_unrolls (hf _ _ _) hround with ⟨u₁, hu₁, rfl⟩
      rcases ih hrest with ⟨u', hu', rfl⟩
      refine ⟨u', ?_, ?_⟩
      · rw [Function.iterate_succ_apply, Progress.andThen_running, hu₁, hu']
      · rw [Nat.add_assoc, Nat.add_comm 1]

theorem runAll_append (first second : List Command) (t : Turtle) :
    runAll (first ++ second) t = (runAll first t).andThen (runAll second) := by
  induction first generalizing t with
  | nil => rfl
  | cons c first ih =>
      rw [List.cons_append, runAll_cons, runAll_cons c first, Progress.andThen_assoc]
      exact congrArg _ (funext ih)

/-- Running a list again and again is running copies of it one after another. -/
theorem runAll_replicate (n : Nat) (body : List Command) (p : Progress) :
    (Progress.andThen · (runAll body))^[n] p =
      p.andThen (runAll (List.replicate n body).flatten) := by
  induction n generalizing p with
  | zero => cases p <;> rfl
  | succ n ih =>
      rw [Function.iterate_succ_apply, ih, List.replicate_succ, List.flatten_cons,
        Progress.andThen_assoc]
      exact congrArg _ (funext fun t => (runAll_append body _ t).symm)

/-- Loops unroll. A loop has a constant count with `n` whole ones in it, and its body calls
    no procedure and reads the counter at most inside of other loops. If the loop goes to the
    end, then so does running the body `n` times in a row, which is running `n` copies of it
    one after another. The turtle is the same in the end but for its operations, which are
    exactly `n` fewer. A whole number that is given as the count is the number of rounds. -/
theorem loop_unrolls (v default : Scalar) {body : List Command}
    (hcalls : allCallFree body = true) (hreads : "IT" ∉ outerReadsOf body) {t t' : Turtle}
    (h : runAll [.loop ⟨.constant v, default⟩ body] t = .running t') :
    let n := Scalar.wholeBelow v
    n ≤ t'.operations ∧
      (Progress.andThen · (runAll body))^[n] (.running t) =
        .running { t' with operations := t'.operations - n } ∧
      runAll (List.replicate n body).flatten t =
        .running { t' with operations := t'.operations - n } ∧
      ∀ whole < 2 ^ 53, v = Scalar.ofNat whole → n = whole := by
  intro n
  have hrounds : (t.later 0).iterate (runAll body) n 0 = .running t' := by
    rw [runAll_singleton] at h
    exact h
  rcases iterate_unrolls (carries_runAll hcalls hreads) n hrounds with ⟨u, hu, rfl⟩
  rw [Nat.zero_add]
  have hsame : { u.later n with operations := (u.later n).operations - n } = u := by
    simp only [Turtle.later, Nat.add_sub_cancel]
  rw [hsame]
  refine ⟨Nat.le_add_left n u.operations, hu, ?_, ?_⟩
  · rw [runAll_replicate] at hu
    exact hu
  · rintro whole hwhole rfl
    exact Scalar.wholeBelow_ofNat hwhole

/-- Three rounds of a turn and of a loop with lines as long as its counter. -/
theorem loop_unrolls_nested :
    let body : List Command := [.basic (.turn none false),
      .loop (.constant 2.0) [.basic (.forward (some ⟨.deferred [.variable "IT"], 20.0⟩) true)]]
    let t := Turtle.ofSize ⟨500.0, 500.0⟩ 100
    ∃ t', runAll [.loop (.constant 3.0) body] t = .running t' ∧
      runAll (List.replicate 3 body).flatten t =
        .running { t' with operations := t'.operations - 3 } := by
  intro body t
  have hgoes : (runAll [.loop (.constant 3.0) body] t).isStopped = false := by decide +kernel
  have hrounds : Scalar.wholeBelow 3.0 = 3 := by decide +kernel
  cases hrun : runAll [.loop (.constant 3.0) body] t with
  | stopped bound u =>
      rw [hrun] at hgoes
      cases hgoes
  | running t' =>
      have hunrolled := (loop_unrolls 3.0 3.0 (by decide) (by decide) hrun).2.2.1
      rw [hrounds] at hunrolled
      exact ⟨t', rfl, hunrolled⟩

end TurtleGraphics
