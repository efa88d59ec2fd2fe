import TurtleGraphics.Proofs.Accounting

/-!
# The Cursor Is Drawn on Top

A run that draws the cursor does all that the run without it does, and then one thing more.
The program may have ended anywhere: stopped by its budget, or with a path that no one has
flushed. Neither makes a difference, for two reasons.

The bound on operations is lifted before the cursor is drawn, so the glyph is drawn whole.
And the glyph begins with a color and a width of its own. Setting the color finishes the
pending path in the style it was drawn with, which is what the end of the run would have
done. After that nothing is pending, so the five sides of the glyph make a path of their
own, and no part of it continues what the program has drawn.

The argument is about painters. `Painter.Traced` is what some lines in a row make of a
painter: they become part of its pending path and touch nothing else.

## Main definitions

* `PathElement.isLineTo`: Whether an element of a path is a line.
* `Painter.Traced`: A painter after some lines in a row.
* `Turtle.side`: A turn and a line, of which the glyph has five.

## Theorems

* `Painter.Traced.line`: One line more.
* `Painter.shapes_finish_traced`: Lines after a change of style are a path of their own.
* `Turtle.traced_sides`: Sides of a glyph are lines in a row.
* `cursor_only_adds`: The cursor is one path more, and nothing else is different.
-/

namespace TurtleGraphics

/-- Whether an element of a path is a line. -/
def PathElement.isLineTo : PathElement → Bool
  | .lineTo _ => true
  | _ => false

namespace Painter

/-- The painter `q` is `p` after `n` lines in a row. -/
structure Traced (n : Nat) (p q : Painter) : Prop where
  picture : q.picture = p.picture
  color : q.color = p.color
  width : q.width = p.width
  lines : q.pending.toList.countP PathElement.isLineTo =
    p.pending.toList.countP PathElement.isLineTo + n
  anchored : p.Anchored → q.Anchored

theorem Traced.refl (p : Painter) : Traced 0 p p := ⟨rfl, rfl, rfl, rfl, id⟩

/-- One line more, wherever it starts. If it does not continue the path there is a move
    before it, and a move is no line. -/
theorem Traced.line {n : Nat} {p q : Painter} (start stop : Point)
    (h : Traced n (p.line start stop) q) : Traced (n + 1) p q := by
  have hcount : (p.line start stop).pending.toList.countP PathElement.isLineTo =
      p.pending.toList.countP PathElement.isLineTo + 1 := by
    unfold Painter.line
    by_cases hlast : p.last.any (· == start) = true
    · simp only [if_pos hlast, Array.toList_push, List.countP_append]
      rfl
    · simp only [if_neg hlast, Array.toList_push, List.countP_append]
      rfl
  refine ⟨h.picture, h.color, h.width, ?_, fun _ => h.anchored (anchored_line p start stop)⟩
  rw [h.lines, hcount]
  omega

theorem size_finish (p : Painter) : p.finish.size = p.picture.size := by
  unfold finish
  by_cases h : p.pending.isEmpty = true
  · rw [flush_of_empty h]
  · rw [flush_of_nonempty h]
    rfl

/-- With nothing pending, a painter that has drawn lines finishes with one path more, made of
    these lines. -/
theorem shapes_finish_traced {n : Nat} {p q : Painter} (h : Traced n p q)
    (hpending : p.pending = #[]) (hlast : p.last = none) (hn : 0 < n) :
    ∃ path : Path, q.finish.shapes.toList = p.shapes ++ [.path path] ∧
      path.stroke = p.color ∧ path.width = p.width ∧ path.fill = none ∧
      path.isClosed = false ∧ path.elements.toList.countP PathElement.isLineTo = n := by
  have hlines : q.pending.toList.countP PathElement.isLineTo = n := by
    rw [h.lines, hpending]
    exact Nat.zero_add n
  have hne : ¬ q.pending.isEmpty = true := by
    intro hempty
    rw [Array.isEmpty_iff.mp hempty] at hlines
    exact absurd hlines (Nat.ne_of_lt hn)
  have hshapes : q.shapes = p.shapes := by rw [shapes, shapes, h.picture]
  refine ⟨q.pendingPath .plain, ?_, h.color, h.width, rfl, ?_, hlines⟩
  · rw [shapes_finish, shapes_flush, hshapes, pendingShapes, if_neg hne]
  · exact isClosed_pendingPath (h.anchored (.inl ⟨hpending, hlast⟩)) hne .plain

/-- Setting a color and then a width finishes the picture as far as it goes, and nothing is
    pending afterwards. -/
theorem setWidth_setColor {p : Painter} (h : p.Anchored) (c : Color) (w : Scalar) :
    (p.setColor c).setWidth w = { picture := p.finish, color := c, width := w } := by
  rcases anchored_flush h .plain with ⟨hpending, hlast⟩
  have hcolored : (p.setColor c).flush .plain = p.setColor c := by
    refine flush_of_empty ?_ .plain
    simp only [setColor, hpending]
    rfl
  rw [setWidth, hcolored]
  simp only [setColor, hpending, hlast]
  rfl

end Painter

namespace Turtle

/-- A side of a glyph: a turn and a line. -/
def side (amount length : Scalar) : List Action :=
  [.turn (some amount) false, .forward (some (length * glyphScale)) true]

/-- The turns and lengths of the sides of the glyph. -/
def glyphSides : List (Scalar × Scalar) :=
  [(90.0, 10.0), (-120.0, 20.0), (-120.0, 20.0), (-120.0, 10.0), (-90.0, 16.0)]

/-- The glyph is a change of style and five sides. -/
theorem glyph_eq : glyph = [.color ⟨0.0, 200.0, 0.0, 0.6⟩, .width 1.0] ++
    glyphSides.flatMap fun s => side s.1 s.2 := rfl

/-- The turtle after an action that was charged for. -/
def acted (t : Turtle) (a : Action) : Turtle := a.apply { t with operations := t.operations + 1 }

/-- Without a budget all actions take place. -/
theorem performAll_eq_foldl (actions : List Action) {t : Turtle} (h : t.budget = none) :
    performAll actions t = .running (actions.foldl acted t) := by
  induction actions generalizing t with
  | nil => rfl
  | cons a rest ih =>
      have hcharge : t.charge = .running { t with operations := t.operations + 1 } := by
        simp only [charge, h]
      have hbudget : (t.acted a).budget = none := (account_apply a _).budget.trans h
      rw [performAll, perform, hcharge, List.foldl_cons, ← ih hbudget]
      rfl

/-- Sides of a glyph are so many lines in a row, by induction on the sides. -/
theorem traced_sides (sides : List (Scalar × Scalar)) (t : Turtle) :
    Painter.Traced sides.length t.painter
      ((sides.flatMap fun s => side s.1 s.2).foldl acted t).painter := by
  induction sides generalizing t with
  | nil => exact .refl t.painter
  | cons s sides ih =>
      -- The turn leaves the painter alone, and the line starts wherever the turtle is.
      have hside : ∃ start stop,
          ((side s.1 s.2).foldl acted t).painter = t.painter.line start stop := ⟨_, _, rfl⟩
      rcases hside with ⟨start, stop, hside⟩
      have htraced := ih ((side s.1 s.2).foldl acted t)
      rw [hside] at htraced
      rw [List.flatMap_cons, List.foldl_append]
      exact htraced.line start stop

/-- A change of style reaches the painter as it is. -/
theorem painter_restyled (t : Turtle) (c : Color) (w : Scalar) :
    ([.color c, .width w].foldl acted t).painter = (t.painter.setColor c).setWidth w.abs := rfl

/-- Drawing the cursor is a change of style and five lines in a row. -/
theorem traced_withCursor (t : Turtle) :
    Painter.Traced 5 ((t.painter.setColor ⟨0.0, 200.0, 0.0, 0.6⟩).setWidth 1.0)
      (withCursor t).painter := by
  have hwidth : (1.0 : Scalar).abs = 1.0 := by decide +kernel
  have hlifted : t.liftBudget.budget = none := rfl
  rw [withCursor, drawCursor, performAll_eq_foldl glyph hlifted, glyph_eq, List.foldl_append]
  have htraced := traced_sides glyphSides
    ([.color ⟨0.0, 200.0, 0.0, 0.6⟩, .width 1.0].foldl acted t.liftBudget)
  rw [painter_restyled, hwidth] at htraced
  exact htraced

end Turtle

/-- The cursor only adds. A run that draws the cursor reports what the run without it
    reports, and its picture has the same size and the same shapes with one more behind them:
    a path of five lines, in the color and width of the cursor, neither filled nor closed.
    This holds of every run, whether the budget stops it or a path is left pending. Its
    operations fit into 64 bits if the budget leaves room for those of the glyph. -/
theorem cursor_only_adds (o : Options) (source : String) :
    let plain := run { o with cursor := false } source
    let drawn := run { o with cursor := true } source
    drawn.log = plain.log ∧ drawn.picture.size = plain.picture.size ∧
      (∃ path : Path, drawn.picture.shapes.toList = plain.picture.shapes.toList ++ [.path path] ∧
        path.stroke = ⟨0.0, 200.0, 0.0, 0.6⟩ ∧ path.width = 1.0 ∧ path.fill = none ∧
        path.isClosed = false ∧ path.elements.toList.countP PathElement.isLineTo = 5) ∧
      (o.maxOperations ≤ UInt64.size - 13 → drawn.operations < UInt64.size) := by
  intro plain drawn
  have hanchored : (runProgram o source).settled.painter.Anchored := by
    have h := anchored_runProgram o source
    cases hrun : runProgram o source with
    | running t | stopped bound t =>
        rw [hrun] at h
        exact h
  have htraced := Turtle.traced_withCursor (runProgram o source).settled
  rw [Painter.setWidth_setColor hanchored] at htraced
  have hsame : ∀ cursor, runProgram { o with cursor } source = runProgram o source := fun _ => rfl
  have hplain : plain.picture = (runProgram o source).settled.painter.finish := by
    simp only [plain, run, Bool.false_eq_true, if_false, hsame]
  have hdrawn : drawn.picture = (withCursor (runProgram o source).settled).painter.finish := by
    simp only [drawn, run, if_true, hsame]
  refine ⟨?_, ?_, ?_, fun hroom => ?_⟩
  · exact (run_eq_settled _ source).1.trans (run_eq_settled _ source).1.symm
  · rw [hdrawn, hplain, Painter.size_finish, htraced.picture]
  · rw [hdrawn, hplain]
    exact Painter.shapes_finish_traced htraced rfl rfl (by decide)
  · have hle : (runProgram o source).turtle.operations ≤ o.maxOperations :=
      (accounted_runProgram o source).operations_le
    have hcounted : drawn.operations = (runProgram o source).turtle.operations + 12 :=
      (run_eq_settled { o with cursor := true } source).2
    unfold UInt64.size at hroom ⊢
    omega

/-- The first line of two is pending when the budget stops the run, and the cursor comes
    after it. -/
theorem cursor_only_adds_stopped :
    let o : Options := { maxOperations := 1 }
    let drawn := run { o with cursor := true } "D+D"
    (runProgram o "D+D").isStopped = true ∧
      (runProgram o "D+D").turtle.painter.pending.isEmpty = false ∧
      (∃ path, drawn.picture.shapes.toList =
        (run { o with cursor := false } "D+D").picture.shapes.toList ++ [.path path]) ∧
      drawn.operations < UInt64.size := by
  intro o drawn
  rcases cursor_only_adds o "D+D" with ⟨-, -, ⟨path, hshapes, -⟩, hcounted⟩
  exact ⟨by decide +kernel, by decide +kernel, ⟨path, hshapes⟩, hcounted (by decide)⟩

end TurtleGraphics
