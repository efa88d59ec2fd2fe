import Mathlib.Data.List.Forall2
import TurtleGraphics.Proofs.Painting

/-!
# What a Picture Shows

A picture can be read again: its shapes in order, and in each path one segment for
every line element, from where the element before it ended. What is read are the
*marks* of the picture. This module compares them with what the painter was asked to
draw, which is known from the calls alone.

A painter defers work. Lines are collected, and the color and width of a path are
those of the moment at which it is flushed. None of this can be seen. The marks of a
painter are those of its finished shapes and, in the current color and width, those of
its pending path, and with this view flushing changes nothing (`Painter.marks_flush`),
a line adds one mark (`Painter.exists_marks_line`), and so does a background. Since
every change of style flushes first, it does not touch the marks that are there.

Where a line continues the pending path, no element tells where it starts. The point
that is read instead is the end of the line before it, which is the start of the line
up to the sign of zeros, since the painter has compared the two.

## Main definitions

* `Mark`: What can be read from a picture.
* `Path.marks`, `Shape.marks`, `Picture.marks`: Reading paths, shapes and pictures.
* `Mark.Shows`: A mark shows what was asked for.
* `Painter.asked`: The marks that calls ask for.
* `Painter.marks`: The marks of a picture in the making.
* `Painter.emitted`: The shapes that a call adds.
* `Painter.EmittedBy`: The call that has added a shape.

## Theorems

* `segmentsFrom_append`: Segments of two parts of a path.
* `Painter.marks_flush`: Flushing does not change what is seen.
* `Painter.exists_marks_line`: A line is seen as one segment.
* `Painter.exists_marks_performAll`: What is asked for is seen.
* `Painter.shapes_perform`: Calls add shapes behind those that are there.
* `Painter.exists_emittedBy`: Every shape is added by a call.
* `Painter.path_of_emittedBy`: A path is the pending path of its call.
* `picture_shows_calls`: Pictures show what was drawn, and flushes decide about fills
  and closed paths.
-/

namespace TurtleGraphics

/-- Where an element of a path ends, if it ends somewhere of its own. -/
def PathElement.endpoint? : PathElement → Option Point
  | .moveTo p | .lineTo p | .quadTo _ p | .curveTo _ _ p => some p
  | .close => none

/-- What can be read from a picture: straight segments with their strokes, and
    backgrounds. A segment at the very start of a path has no known start. -/
inductive Mark where
  | segment (start : Option Point) (stop : Point) (stroke : Color) (width : Scalar)
  | background (c : Color)

/-- The segments of path elements, the first of which starts at `last`. -/
def segmentsFrom (stroke : Color) (width : Scalar) (last : Option Point) :
    List PathElement → List Mark
  | [] => []
  | .lineTo stop :: rest =>
    .segment last stop stroke width :: segmentsFrom stroke width (some stop) rest
  | e :: rest => segmentsFrom stroke width e.endpoint? rest

def Path.marks (path : Path) : List Mark :=
  segmentsFrom path.stroke path.width none path.elements.toList

def Shape.marks : Shape → List Mark
  | .path p => p.marks
  | .background c => [.background c]

/-- The marks of a picture in the order of painting. -/
def Picture.marks (p : Picture) : List Mark := p.shapes.toList.flatMap Shape.marks

/-- The first mark shows what the second one asks for: everything is identical, but the
    start of a segment may differ in the sign of zeros. -/
inductive Mark.Shows : Mark → Mark → Prop where
  | segment {start start' : Point} (h : start = start' ∨ (start == start') = true)
      (stop : Point) (stroke : Color) (width : Scalar) :
      Shows (.segment (some start) stop stroke width) (.segment (some start') stop stroke width)
  | background (c : Color) : Shows (.background c) (.background c)

section

variable (stroke : Color) (width : Scalar)

/-- Where the elements of a path end that starts at `last`. -/
def endAfter (last : Option Point) (elements : List PathElement) : Option Point :=
  match elements.getLast? with
  | some e => e.endpoint?
  | none => last

theorem segmentsFrom_append (last : Option Point) (first second : List PathElement) :
    segmentsFrom stroke width last (first ++ second)
      = segmentsFrom stroke width last first ++
          segmentsFrom stroke width (endAfter last first) second := by
  induction first generalizing last with
  | nil => rfl
  | cons e rest ih =>
      have hend : endAfter last (e :: rest) = endAfter e.endpoint? rest := by
        cases rest with
        | nil => rfl
        | cons e' rest => rw [endAfter, endAfter, List.getLast?_cons_cons]; rfl
      rw [hend]
      cases e with
      | lineTo stop =>
          simp only [List.cons_append, segmentsFrom]
          exact congrArg _ (ih (some stop))
      | moveTo p => exact ih (some p)
      | quadTo c p => exact ih (some p)
      | curveTo c d p => exact ih (some p)
      | close => exact ih none

end

namespace Painter

/-- The marks that calls ask for, when they start in some color and width. -/
def asked (color : Color) (width : Scalar) : List Call → List Mark
  | [] => []
  | .line start stop :: calls => .segment (some start) stop color width :: asked color width calls
  | .flush _ :: calls => asked color width calls
  | .color c :: calls => asked c width calls
  | .width w :: calls => asked color w calls
  | .background c :: calls => .background c :: asked color width calls

/-- The marks of a picture in the making: those of the finished shapes, and those of
    the pending path as if it were finished now. -/
def marks (p : Painter) : List Mark :=
  p.shapes.flatMap Shape.marks ++ segmentsFrom p.color p.width none p.pending.toList

theorem marks_of_empty {p : Painter} (h : p.pending = #[]) :
    p.marks = p.shapes.flatMap Shape.marks := by
  rw [marks, h]
  exact List.append_nil _

/-- However the pending path is finished, the same segments are read from it. -/
theorem marks_pendingPath (p : Painter) (mode : FlushMode) :
    (p.pendingPath mode).marks = segmentsFrom p.color p.width none p.pending.toList := by
  unfold Path.marks pendingPath
  by_cases hclose : mode = .close
  · simp only [if_pos hclose, Array.toList_push]
    rw [segmentsFrom_append]
    exact List.append_nil _
  · simp only [if_neg hclose]

/-- Flushing turns the pending path into a shape, and nobody can see it. -/
theorem marks_flush {p : Painter} (h : p.Anchored) (mode : FlushMode) :
    (p.flush mode).marks = p.marks := by
  rw [marks_of_empty (anchored_flush h mode).1, shapes_flush, List.flatMap_append, marks]
  by_cases hempty : p.pending.isEmpty = true
  · rw [pendingShapes, if_pos hempty, Array.isEmpty_iff.mp hempty]
    rfl
  · rw [pendingShapes, if_neg hempty, List.flatMap_singleton]
    exact congrArg _ (marks_pendingPath p mode)

theorem marks_finish {p : Painter} (h : p.Anchored) : p.finish.marks = p.marks := by
  rw [← marks_flush h .plain, marks_of_empty (anchored_flush h .plain).1]
  rfl

theorem marks_line {p : Painter} {start stop : Point} {elements : Array PathElement}
    (h : (p.line start stop).pending = elements.push (.lineTo stop)) :
    (p.line start stop).marks
      = p.shapes.flatMap Shape.marks ++ (segmentsFrom p.color p.width none elements.toList ++
          [.segment (endAfter none elements.toList) stop p.color p.width]) := by
  rw [marks, h, Array.toList_push, segmentsFrom_append]
  rfl

/-- A line is seen as one segment in the current color and width. It starts where it
    should, unless it continues the pending path. Then it starts where that ends, which
    the painter has found to be equal. -/
theorem exists_marks_line {p : Painter} (h : p.Anchored) (start stop : Point) :
    ∃ start' : Point, (start' = start ∨ (start' == start) = true) ∧
      (p.line start stop).marks
        = p.marks ++ [.segment (some start') stop p.color p.width] := by
  by_cases hcontinues : p.last.any (· == start) = true
  · have hpending : (p.line start stop).pending = p.pending.push (.lineTo stop) := by
      simp only [line, if_pos hcontinues]
    rcases h with ⟨_, hlast⟩ | ⟨elements, stop', helements, hlast⟩
    · rw [hlast] at hcontinues
      exact absurd hcontinues Bool.false_ne_true
    · -- The point that is remembered is where the pending path ends.
      rw [hlast] at hcontinues
      have hend : endAfter none p.pending.toList = some stop' := by
        rw [helements, Array.toList_push, endAfter, List.getLast?_concat]
        rfl
      refine ⟨stop', .inr hcontinues, ?_⟩
      rw [marks_line hpending, hend, marks, List.append_assoc]
  · have hpending : (p.line start stop).pending
        = (p.pending.push (.moveTo start)).push (.lineTo stop) := by
      simp only [line, if_neg hcontinues]
    have hend : endAfter none (p.pending.push (.moveTo start)).toList = some start := by
      rw [Array.toList_push, endAfter, List.getLast?_concat]
      rfl
    -- Going to the start of the line leaves no mark.
    have hmove : segmentsFrom p.color p.width none (p.pending.push (.moveTo start)).toList
        = segmentsFrom p.color p.width none p.pending.toList := by
      rw [Array.toList_push, segmentsFrom_append]
      exact List.append_nil _
    refine ⟨start, .inl rfl, ?_⟩
    rw [marks_line hpending, hend, hmove, marks, List.append_assoc]

theorem shapes_background (p : Painter) (c : Color) :
    (p.background c).shapes = (p.flush .plain).shapes ++ [.background c] :=
  Array.toList_push

theorem marks_background {p : Painter} (h : p.Anchored) (c : Color) :
    (p.background c).marks = p.marks ++ [.background c] := by
  have hpending : (p.background c).pending = #[] := (anchored_flush h .plain).1
  rw [marks_of_empty hpending, shapes_background, List.flatMap_append, ← marks_flush h .plain,
    marks_of_empty (anchored_flush h .plain).1]
  rfl

theorem marks_restyled {p : Painter} (h : p.Anchored) (color : Color) (width : Scalar) :
    marks { p.flush .plain with color, width } = p.marks := by
  -- The style only shows in what is pending, and after a flush nothing is.
  have hpending := (anchored_flush h .plain).1
  rw [← marks_flush h .plain, marks_of_empty hpending]
  exact marks_of_empty hpending

/-- What is asked for is seen, after all that was seen before, in the color and width
    that were set last. -/
theorem exists_marks_performAll {p : Painter} (h : p.Anchored) (calls : List Call) :
    ∃ new : List Mark, (p.performAll calls).marks = p.marks ++ new ∧
      List.Forall₂ Mark.Shows new (asked p.color p.width calls) := by
  induction calls generalizing p with
  | nil => exact ⟨[], (List.append_nil _).symm, .nil⟩
  | cons c calls ih =>
      rcases ih (anchored_perform h c) with ⟨new, hnew, hshows⟩
      rw [performAll_cons, hnew]
      cases c with
      | line start stop =>
          rcases exists_marks_line h start stop with ⟨start', hstart, hline⟩
          refine ⟨.segment (some start') stop p.color p.width :: new, ?_,
            .cons (.segment hstart stop p.color p.width) hshows⟩
          rw [perform, hline, List.append_assoc, List.singleton_append]
      | background c =>
          refine ⟨.background c :: new, ?_, ?_⟩
          · rw [perform, marks_background h, List.append_assoc, List.singleton_append]
          · simp only [perform, background, color_flush, width_flush] at hshows
            exact .cons (.background c) hshows
      | flush mode =>
          simp only [perform, color_flush, width_flush] at hshows
          exact ⟨new, by rw [perform, marks_flush h], hshows⟩
      | color c =>
          simp only [perform, setColor, width_flush] at hshows
          refine ⟨new, ?_, hshows⟩
          have hstyle := marks_restyled h c (p.flush .plain).width
          exact congrArg (· ++ new) hstyle
      | width w =>
          simp only [perform, setWidth, color_flush] at hshows
          refine ⟨new, ?_, hshows⟩
          have hstyle := marks_restyled h (p.flush .plain).color w
          exact congrArg (· ++ new) hstyle

/-- How a call finishes the pending path, if it does. -/
def Call.mode : Call → FlushMode
  | .flush mode => mode
  | _ => .plain

theorem Call.mode_eq_iff {mode : FlushMode} (hmode : mode ≠ .plain) (c : Call) :
    c.mode = mode ↔ c = .flush mode := by
  cases c with
  | flush m => exact ⟨congrArg Call.flush, Call.flush.inj⟩
  | line | color | width | background =>
      exact ⟨fun h => absurd h.symm hmode, fun h => by cases h⟩

/-- The shapes that a call adds. -/
def emitted (p : Painter) : Call → List Shape
  | .line _ _ => []
  | .background c => p.pendingShapes .plain ++ [.background c]
  | c => p.pendingShapes c.mode

theorem shapes_perform (p : Painter) (c : Call) :
    (p.perform c).shapes = p.shapes ++ p.emitted c := by
  cases c with
  | line start stop => exact (List.append_nil _).symm
  | flush mode => exact shapes_flush p mode
  | color c => exact shapes_flush p .plain
  | width w => exact shapes_flush p .plain
  | background c =>
      rw [perform, shapes_background, shapes_flush, List.append_assoc, emitted]

/-- Whatever path a call adds is the pending one, finished as the call says. -/
theorem path_of_mem_emitted {p : Painter} {c : Call} {path : Path}
    (h : .path path ∈ p.emitted c) :
    ¬ p.pending.isEmpty = true ∧ path = p.pendingPath c.mode := by
  have hpending : ∀ mode, .path path ∈ p.pendingShapes mode →
      ¬ p.pending.isEmpty = true ∧ path = p.pendingPath mode := by
    intro mode hmem
    by_cases hempty : p.pending.isEmpty = true
    · rw [pendingShapes, if_pos hempty] at hmem
      exact absurd hmem List.not_mem_nil
    · rw [pendingShapes, if_neg hempty] at hmem
      exact ⟨hempty, Shape.path.inj (List.mem_singleton.mp hmem)⟩
  cases c with
  | line start stop => exact absurd h List.not_mem_nil
  | flush mode => exact hpending mode h
  | color c => exact hpending .plain h
  | width w => exact hpending .plain h
  | background c =>
      rcases List.mem_append.mp h with hmem | hmem
      · exact hpending .plain hmem
      · exact absurd (List.mem_singleton.mp hmem) (by simp only [reduceCtorEq, not_false_eq_true])

theorem shapes_performAll_isPrefix (p : Painter) (calls : List Call) :
    p.shapes <+: (p.performAll calls).shapes := by
  rcases continues_performAll p calls with hkept | ⟨hshapes, _⟩
  · exact hkept.shapes
  · exact ⟨[], by rw [List.append_nil, hshapes]⟩

theorem shapes_finish_performAll (p : Painter) (calls : List Call) :
    (p.performAll calls).finish.shapes.toList
      = (p.performAll (calls ++ [.flush .plain])).shapes := by
  rw [performAll_append]
  rfl

/-- The call that has added the shape with the number `i` to the picture. The end of
    the work counts as a plain flush. -/
def EmittedBy (size : Size) (calls : List Call) (i : Nat) (c : Call) : Prop :=
  ∃ before after : List Call, calls ++ [.flush .plain] = before ++ c :: after ∧
    ((ofSize size).performAll before).shapes.length ≤ i ∧
    i < ((ofSize size).performAll (before ++ [c])).shapes.length

/-- Every shape is added by a call. -/
theorem exists_call {p : Painter} {calls : List Call} {i : Nat} (hle : p.shapes.length ≤ i)
    (hlt : i < (p.performAll calls).shapes.length) :
    ∃ (before : List Call) (c : Call) (after : List Call), calls = before ++ c :: after ∧
      (p.performAll before).shapes.length ≤ i ∧
      i < (p.performAll (before ++ [c])).shapes.length := by
  induction calls generalizing p with
  | nil =>
      rw [performAll_nil] at hlt
      omega
  | cons c calls ih =>
      by_cases hi : i < (p.perform c).shapes.length
      · exact ⟨[], c, calls, rfl, hle, hi⟩
      · rcases ih (Nat.le_of_not_lt hi) hlt with ⟨before, c', after, hcalls, hbefore, hafter⟩
        refine ⟨c :: before, c', after, ?_, hbefore, hafter⟩
        rw [hcalls, List.cons_append]

/-- A path in the finished picture is the path that was pending when its call came,
    finished as the call says. -/
theorem path_of_emittedBy {size : Size} {calls : List Call} {i : Nat} {c : Call} {path : Path}
    (hget : ((ofSize size).performAll calls).finish.shapes[i]? = some (.path path))
    (h : EmittedBy size calls i c) :
    ∃ p : Painter, p.Anchored ∧ ¬ p.pending.isEmpty = true ∧ path = p.pendingPath c.mode := by
  rcases h with ⟨before, after, hcalls, hbefore, hafter⟩
  have hlater := shapes_performAll_isPrefix ((ofSize size).performAll (before ++ [c])) after
  rw [← performAll_append, List.append_assoc, List.singleton_append, ← hcalls,
    ← shapes_finish_performAll] at hlater
  rw [← Array.getElem?_toList] at hget
  -- The shape is there when the call has been performed, and not before.
  have hnow : ((ofSize size).performAll (before ++ [c])).shapes[i]? = some (.path path) := by
    rcases hlater with ⟨more, hmore⟩
    rw [← hmore, List.getElem?_append_left hafter] at hget
    exact hget
  rw [performAll_append, performAll_cons, performAll_nil, shapes_perform,
    List.getElem?_append_right hbefore] at hnow
  rcases path_of_mem_emitted (List.mem_of_getElem? hnow) with ⟨hne, hpath⟩
  exact ⟨_, anchored_performAll (anchored_ofSize size) before, hne, hpath⟩

theorem exists_emittedBy {size : Size} {calls : List Call} {i : Nat} {s : Shape}
    (hget : ((ofSize size).performAll calls).finish.shapes[i]? = some s) :
    ∃ c, EmittedBy size calls i c := by
  rw [← Array.getElem?_toList, shapes_finish_performAll] at hget
  have hlt := (List.getElem?_eq_some_iff.mp hget).1
  rcases exists_call (Nat.zero_le i : (ofSize size).shapes.length ≤ i) hlt with
    ⟨before, c, after, hcalls, hbefore, hafter⟩
  exact ⟨c, before, after, hcalls, hbefore, hafter⟩

end Painter

/-- A picture shows what was drawn. Its marks are those that the calls have asked for,
    one by one, in order and in the color and width that were set last before them.
    Every path is added by a call, and it is filled, in the color of its stroke, exactly
    if that call was a filling flush, and closed exactly if it was a closing one. -/
theorem picture_shows_calls (size : Size) (calls : List Painter.Call) :
    let picture := ((Painter.ofSize size).performAll calls).finish
    List.Forall₂ Mark.Shows picture.marks (Painter.asked .black 1.0 calls) ∧
      ∀ (i : Nat) (path : Path), picture.shapes[i]? = some (.path path) →
        (∃ c, Painter.EmittedBy size calls i c) ∧
          ∀ c, Painter.EmittedBy size calls i c →
            (c = .flush .fill → path.fill = some path.stroke) ∧
            (c ≠ .flush .fill → path.fill = none) ∧
            (path.isClosed = true ↔ c = .flush .close) := by
  intro picture
  have hnew := Painter.anchored_ofSize size
  refine ⟨?_, ?_⟩
  · rcases Painter.exists_marks_performAll hnew calls with ⟨new, hmarks, hshows⟩
    have hpicture : picture.marks = new := by
      rw [Painter.marks_finish (Painter.anchored_performAll hnew calls), hmarks]
      rfl
    rw [hpicture]
    exact hshows
  · intro i path hget
    refine ⟨Painter.exists_emittedBy hget, fun c hc => ?_⟩
    rcases Painter.path_of_emittedBy hget hc with ⟨p, hanchored, hne, rfl⟩
    have hfill : c.mode = .fill ↔ c = .flush .fill := Painter.Call.mode_eq_iff (by decide) c
    have hclose : c.mode = .close ↔ c = .flush .close := Painter.Call.mode_eq_iff (by decide) c
    refine ⟨fun h => if_pos (hfill.mpr h), fun h => if_neg (fun hmode => h (hfill.mp hmode)), ?_⟩
    rw [Painter.isClosed_pendingPath hanchored hne, decide_eq_true_iff, hclose]

/-- A line that is flushed with a fill gives a filled path that is not closed. -/
theorem picture_shows_calls_filled :
    let size : Size := ⟨2.0, 2.0⟩
    let calls : List Painter.Call := [.line ⟨0.0, 0.0⟩ ⟨1.0, 0.0⟩, .flush .fill]
    ∃ path : Path, ((Painter.ofSize size).performAll calls).finish.shapes[0]? = some (.path path) ∧
      Painter.EmittedBy size calls 0 (.flush .fill) ∧
      path.fill = some path.stroke ∧ ¬ path.isClosed = true := by
  intro size calls
  have hemitted : Painter.EmittedBy size calls 0 (.flush .fill) :=
    ⟨[.line ⟨0.0, 0.0⟩ ⟨1.0, 0.0⟩], [.flush .plain], rfl, by decide, by decide⟩
  have hcall := ((picture_shows_calls size calls).2 0 _ rfl).2 _ hemitted
  exact ⟨_, rfl, hemitted, hcall.1 rfl, fun hclosed => by cases hcall.2.2.mp hclosed⟩

end TurtleGraphics
