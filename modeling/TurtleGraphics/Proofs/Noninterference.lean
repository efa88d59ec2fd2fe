import TurtleGraphics.Proofs.Indistinguishable

/-!
# What Has No Influence on a Program

Two things about a turtle cannot be found out by any program, or by no program that does not
ask for them in so many words.

The first is what the names of the built-in variables are bound to. A program can assign to
such a name, and a procedure can have a parameter of that name, but reading the name reads
the built-in variable. So turtles that differ in such bindings only, in whatever frames,
cannot be told apart.

The second is the drawing: the picture so far, the path that is pending and its style, the
size of the canvas and where its middle is. A program draws, but what it has drawn is not
handed back to it. The one way to learn about the canvas is to read its width or its
height, so turtles that differ in the drawing only cannot be told apart by a program that
reads neither.

Frames are tables that can hold the same bindings in another order. That is why frames are
compared by what they bind, while all else about the turtles is equal.

## Main definitions

* `Builtin.names`: The names of the built-in variables.
* `Table.AgreeExcept`, `Scopes.AgreeExcept`: The same bindings but for some names.
* `Turtle.SameVisible`: Turtles that differ in bindings of built-in names only.
* `Turtle.SameButDrawing`: Turtles that differ in the drawing only.

## Theorems

* `Turtle.inseparable_sameVisible`: No program sees what built-in names are bound to.
* `Turtle.inseparable_sameButDrawing`: None sees the drawing, if it reads no size.
* `runAll_of_sameVisible`: Built-in variables cannot be shadowed.
* `trace_of_sameButDrawing`: Drawing never feeds back into the program.
-/

namespace TurtleGraphics

/-- The names of the built-in variables. -/
def Builtin.names : List String := all.map name

example : Builtin.names = ["X", "Y", "A", "S", "WIDTH", "HEIGHT", "RND"] := rfl

theorem Builtin.not_mem_names_of_ofName? {name : String} (h : ofName? name = none) :
    name ∉ names := by
  intro hmem
  rcases List.mem_map.mp hmem with ⟨b, hb, rfl⟩
  exact List.find?_eq_none.mp h b hb (beq_self_eq_true b.name)

/-- The same is bound to every name, but for some names. -/
def Table.AgreeExcept {α : Type} (hidden : List String) (a b : Table α) : Prop :=
  ∀ name, name ∉ hidden → a.get? name = b.get? name

theorem Table.AgreeExcept.set {α : Type} {hidden : List String} {a b : Table α}
    (h : a.AgreeExcept hidden b) (name : String) (v : α) :
    (a.set name v).AgreeExcept hidden (b.set name v) := by
  intro other hother
  by_cases hname : other = name
  · rw [hname, get?_set_self, get?_set_self]
  · rw [get?_set_of_ne _ hname, get?_set_of_ne _ hname, h other hother]

namespace Scopes

/-- As many frames, and in each of them the same bindings but for some names. -/
structure AgreeExcept (hidden : List String) (s s' : Scopes) : Prop where
  globals : s.globals.AgreeExcept hidden s'.globals
  locals : List.Forall₂ (Table.AgreeExcept hidden) s.locals s'.locals

namespace AgreeExcept

variable {hidden : List String} {s s' : Scopes}

theorem depth_eq (h : s.AgreeExcept hidden s') : s.depth = s'.depth := by
  rw [s.depth_eq, s'.depth_eq, h.locals.length_eq]

theorem get?_eq (h : s.AgreeExcept hidden s') {name : String} (hname : name ∉ hidden) :
    s.get? name = s'.get? name := by
  have hlocals : s.locals.findSome? (·.get? name) = s'.locals.findSome? (·.get? name) := by
    have hframes := h.locals
    generalize s.locals = frames at hframes
    generalize s'.locals = frames' at hframes
    induction hframes with
    | nil => rfl
    | cons hframe _ ih => rw [List.findSome?_cons, List.findSome?_cons, hframe name hname, ih]
  rw [Scopes.get?, Scopes.get?, hlocals, h.globals name hname]

theorem push (h : s.AgreeExcept hidden s') (frame : Bindings) :
    (s.push frame).AgreeExcept hidden (s'.push frame) :=
  ⟨h.globals, .cons (fun _ _ => rfl) h.locals⟩

theorem pop (h : s.AgreeExcept hidden s') : s.pop.AgreeExcept hidden s'.pop := by
  refine ⟨h.globals, ?_⟩
  change List.Forall₂ _ s.locals.tail s'.locals.tail
  rw [← List.drop_one, ← List.drop_one]
  exact List.forall₂_drop 1 h.locals

theorem setGlobal (h : s.AgreeExcept hidden s') (name : String) (v : Scalar) :
    (s.setGlobal name v).AgreeExcept hidden (s'.setGlobal name v) :=
  ⟨h.globals.set name v, h.locals⟩

end AgreeExcept

end Scopes

namespace Turtle

/-- A turtle with other frames. -/
def withScopes (s : Scopes) (t : Turtle) : Turtle := { t with scopes := s }

/-- Turtles that differ at most in what names of built-in variables are bound to. -/
structure SameVisible (t u : Turtle) : Prop where
  rest : u = t.withScopes u.scopes
  scopes : t.scopes.AgreeExcept Builtin.names u.scopes

/-- Of all actions, assignments are the only ones to look at the frames. -/
theorem apply_withScopes {a : Action} (ha : ∀ name v, a ≠ .assign name v) (s : Scopes)
    (t : Turtle) : a.apply (t.withScopes s) = (a.apply t).withScopes s := by
  cases a with
  | assign name v => exact absurd rfl (ha name v)
  | forward distance penDown => cases penDown <;> rfl
  | moveTo target penDown => cases penDown <;> rfl
  | push =>
      have hsame : (t.withScopes s).stack = t.stack := rfl
      simp only [Action.apply, savePose, hsame]
      split <;> rfl
  | pop =>
      have hsame : (t.withScopes s).stack = t.stack := rfl
      simp only [Action.apply, restorePose, hsame]
      cases t.stack <;> rfl
  | turn | heading | step | color | width | flush | background | limit | define => rfl

/-- A change that treats both sides alike keeps turtles the same but for such bindings. -/
theorem SameVisible.change {t u : Turtle} (h : t.SameVisible u) {f : Turtle → Turtle}
    {s : Scopes} (hf : f (t.withScopes u.scopes) = (f t).withScopes s)
    (hs : (f t).scopes.AgreeExcept Builtin.names s) : (f t).SameVisible (f u) := by
  rw [h.rest, hf]
  exact ⟨rfl, hs⟩

theorem SameVisible.apply {t u : Turtle} (h : t.SameVisible u) (a : Action) :
    (a.apply t).SameVisible (a.apply u) := by
  by_cases ha : ∃ name v, a = .assign name v
  · rcases ha with ⟨name, v, rfl⟩
    exact h.change (f := fun t => (Action.assign name v).apply t) rfl
      (h.scopes.setGlobal name v)
  · -- Any other action leaves the frames alone on both sides.
    have hassign : ∀ name v, a ≠ .assign name v := fun name v heq => ha ⟨name, v, heq⟩
    refine h.change (f := fun t => a.apply t) (apply_withScopes hassign u.scopes t) ?_
    rcases (t.applied a).scopes with hsame | ⟨name, v, heq, -⟩
    · rw [hsame]
      exact h.scopes
    · exact absurd heq (hassign name v)

theorem SameVisible.read {t u : Turtle} (h : t.SameVisible u) (name : String) :
    (Turtle.read name t).1 = (Turtle.read name u).1 ∧
      (Turtle.read name t).2.SameVisible (Turtle.read name u).2 := by
  rcases h with ⟨hrest, hscopes⟩
  rw [hrest]
  unfold Turtle.read
  cases hname : Builtin.ofName? name with
  | some b => cases b <;> exact ⟨rfl, rfl, hscopes⟩
  | none => exact ⟨hscopes.get?_eq (Builtin.not_mem_names_of_ofName? hname), rfl, hscopes⟩

/-- No program sees what names of built-in variables are bound to. -/
theorem inseparable_sameVisible : Inseparable (fun _ => True) SameVisible where
  reads name _ t u h := h.read name
  log faults h := h.change (f := fun t => { t with log := t.log.reportAll faults }) rfl h.scopes
  budget h := by rw [h.rest]; rfl
  operations h := by rw [h.rest]; rfl
  charged h := h.change (f := fun t => { t with operations := t.operations + 1 }) rfl h.scopes
  apply a h := h.apply a
  entered frame h := h.change (f := entered frame) rfl (h.scopes.push frame)
  left h := h.change (f := left) rfl h.scopes.pop
  procedures h := by rw [h.rest]; rfl
  depth h := h.scopes.depth_eq
  limit h := by rw [h.rest]; rfl

/-- A turtle in front of another drawing. -/
def withDrawing (painter : Painter) (size : Size) (origin : Point) (t : Turtle) : Turtle :=
  { t with painter, size, origin }

/-- Turtles that differ at most in the drawing. -/
def SameButDrawing (t u : Turtle) : Prop := u = t.withDrawing u.painter u.size u.origin

/-- Actions draw, but what they do otherwise does not depend on the drawing. -/
theorem exists_apply_withDrawing (a : Action) (painter : Painter) (size : Size) (origin : Point)
    (t : Turtle) : ∃ painter', a.apply (t.withDrawing painter size origin)
      = (a.apply t).withDrawing painter' size origin := by
  cases a with
  | forward distance penDown => cases penDown <;> exact ⟨_, rfl⟩
  | moveTo target penDown => cases penDown <;> exact ⟨_, rfl⟩
  | push =>
      have hsame : (t.withDrawing painter size origin).stack = t.stack := rfl
      refine ⟨painter, ?_⟩
      simp only [Action.apply, savePose, hsame]
      split <;> rfl
  | pop =>
      have hsame : (t.withDrawing painter size origin).stack = t.stack := rfl
      refine ⟨painter, ?_⟩
      simp only [Action.apply, restorePose, hsame]
      cases t.stack <;> rfl
  | turn | heading | step | color | width | flush | background | limit | assign | define =>
      exact ⟨_, rfl⟩

theorem SameButDrawing.change {t u : Turtle} (h : t.SameButDrawing u) {f : Turtle → Turtle}
    {painter : Painter}
    (hf : f (t.withDrawing u.painter u.size u.origin) =
      (f t).withDrawing painter u.size u.origin) :
    (f t).SameButDrawing (f u) := by
  rw [h, hf]
  rfl

theorem SameButDrawing.read {t u : Turtle} (h : t.SameButDrawing u) {name : String}
    (hname : name ≠ "WIDTH" ∧ name ≠ "HEIGHT") :
    (Turtle.read name t).1 = (Turtle.read name u).1 ∧
      (Turtle.read name t).2.SameButDrawing (Turtle.read name u).2 := by
  rw [h]
  unfold Turtle.read
  cases hbuiltin : Builtin.ofName? name with
  | none => exact ⟨rfl, rfl⟩
  | some b =>
      have hb : b.name = name := by
        have hfound := List.find?_some hbuiltin
        simpa using hfound
      cases b with
      | width => exact absurd hb.symm hname.1
      | height => exact absurd hb.symm hname.2
      | x | y | angle | step | random => exact ⟨rfl, rfl⟩

/-- No program sees the drawing, if it reads neither the width nor the height of the
    canvas. -/
theorem inseparable_sameButDrawing :
    Inseparable (fun name => name ≠ "WIDTH" ∧ name ≠ "HEIGHT") SameButDrawing where
  reads name hname t u h := h.read hname
  log faults h := h.change (f := fun t => { t with log := t.log.reportAll faults }) rfl
  budget h := by rw [h]; rfl
  operations h := by rw [h]; rfl
  charged h := h.change (f := fun t => { t with operations := t.operations + 1 }) rfl
  apply a h := by
    rcases exists_apply_withDrawing a _ _ _ _ with ⟨painter, hpainter⟩
    exact h.change (f := fun t => a.apply t) hpainter
  entered frame h := h.change (f := entered frame) rfl
  left h := h.change (f := left) rfl
  procedures h := by rw [h]; rfl
  depth h := by rw [h]; rfl
  limit h := by rw [h]; rfl

end Turtle

/-- Built-in variables cannot be shadowed. Turtles that differ at most in what names of
    built-in variables are bound to, in whatever frames, run every list of commands alike:
    both to the end or both to the same bound, and to turtles that again differ at most in
    such bindings. -/
theorem runAll_of_sameVisible (commands : List Command) {t u : Turtle} (h : t.SameVisible u) :
    (runAll commands t).Related Turtle.SameVisible (runAll commands u) :=
  Turtle.inseparable_sameVisible.related_runAll (fun _ _ => trivial)
    (fun _ _ _ _ _ => trivial) h

/-- A procedure with a parameter that is named like a built-in variable, and turtles with
    such names bound in the global frame and in the frame above it. -/
theorem runAll_of_sameVisible_parameter :
    let commands := (Program.parse "@P(X)\x7bD($X)\x7d@P(5)$Y($X)").value
    let t := (Turtle.ofSize ⟨500.0, 500.0⟩ 100).entered {}
    let u := t.withScopes ((t.scopes.pop.setGlobal "X" 7.0).push (({} : Bindings).set "RND" 2.0))
    t.SameVisible u ∧ (runAll commands t).Related Turtle.SameVisible (runAll commands u) := by
  intro commands t u
  have hbound : ∀ (name : String) (v : Scalar), name ∈ Builtin.names →
      ({} : Bindings).AgreeExcept Builtin.names (({} : Bindings).set name v) := by
    intro name v hname other hother
    have hne : other ≠ name := fun heq => hother (heq ▸ hname)
    rw [Table.get?_set_of_ne _ hne]
  have hsame : t.SameVisible u :=
    ⟨rfl, hbound "X" 7.0 (by decide), .cons (hbound "RND" 2.0 (by decide)) .nil⟩
  exact ⟨hsame, runAll_of_sameVisible commands hsame⟩

/-- Drawing never feeds back into the program. A program that reads neither the width nor
    the height of its canvas is run by two new turtles in front of any two canvases, with
    any two painters. After every command at the top they both go on or were both stopped,
    and they differ at most in the drawing; and so they do in the end. -/
theorem trace_of_sameButDrawing (source : String)
    (hsource : ∀ name ∈ readsOf (Program.parse source).value,
      name ≠ "WIDTH" ∧ name ≠ "HEIGHT")
    (budget : Nat) (size size' : Size) (painter painter' : Painter) :
    let commands := (Program.parse source).value
    let t := { ((Turtle.ofSize size budget).load source).2 with painter := painter }
    let u := { ((Turtle.ofSize size' budget).load source).2 with painter := painter' }
    List.Forall₂ (Progress.Related Turtle.SameButDrawing) (Turtle.trace commands t)
        (Turtle.trace commands u) ∧
      (runAll commands t).Related Turtle.SameButDrawing (runAll commands u) := by
  intro commands t u
  have hknows : (Standard.reading fun name => name ≠ "WIDTH" ∧ name ≠ "HEIGHT").Knows t := by
    rintro name p ⟨⟩
  have hsame : t.SameButDrawing u := rfl
  exact ⟨Turtle.inseparable_sameButDrawing.related_trace hsource hknows hsame,
    Turtle.inseparable_sameButDrawing.related_runAll hsource hknows hsame⟩

/-- A loop with lines of growing length and a background, on a new canvas and on a small
    one where a line is pending already. -/
theorem trace_of_sameButDrawing_loop :
    let source := "R(3)\x7bD($IT)+(90)\x7dB(255)"
    let small : Size := ⟨20.0, 10.0⟩
    let painter := Painter.ofSize ⟨500.0, 500.0⟩
    let painter' := (Painter.ofSize small).line ⟨1.0, 2.0⟩ ⟨3.0, 4.0⟩
    (∀ name ∈ readsOf (Program.parse source).value, name ≠ "WIDTH" ∧ name ≠ "HEIGHT") ∧
      List.Forall₂ (Progress.Related Turtle.SameButDrawing)
        (Turtle.trace (Program.parse source).value
          { ((Turtle.ofSize ⟨500.0, 500.0⟩ 100).load source).2 with painter := painter })
        (Turtle.trace (Program.parse source).value
          { ((Turtle.ofSize small 100).load source).2 with painter := painter' }) := by
  intro source small painter painter'
  have hsource : ∀ name ∈ readsOf (Program.parse source).value,
      name ≠ "WIDTH" ∧ name ≠ "HEIGHT" := by decide +kernel
  exact ⟨hsource,
    (trace_of_sameButDrawing source hsource 100 ⟨500.0, 500.0⟩ small painter painter').1⟩

end TurtleGraphics
