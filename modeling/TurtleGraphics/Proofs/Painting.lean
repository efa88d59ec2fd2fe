import TurtleGraphics.Painter

/-!
# Painters at Work

What a painter has done so far is a list of finished shapes and one pending path.
Everything here is about these two: flushing turns the pending path into the next
shape, a line makes it longer, and nothing ever takes back a finished shape.

`Painter.Kept` is the consequence that matters to whoever interrupts a painter.
Take the painter `p` at some moment and the shapes that are there at some later
moment. The shapes that `p` had finished are the first of them, and if a path was
pending, then the next shape is that path or a longer one, with the same stroke.
The longer one may have been closed or filled, which the interruption could not
know. So the picture that `p` would finish with is a prefix of the later picture
but for its last path, which may have been cut short.

A pending path always ends with a line to the point that the painter remembers.
`Painter.Anchored` says so, and it is why a path that is cut short is never closed.

## Main definitions

* `Painter.pendingPath`: The path that flushing makes of the pending one.
* `Painter.pendingShapes`: The shapes that flushing adds.
* `Painter.shapes`: The finished shapes.
* `Painter.Anchored`: The pending path ends where the painter remembers.
* `Painter.Kept`: Shapes of a later moment go on from those of an earlier one.
* `Painter.Continues`: One painter is another one at a later moment.
* `Shape.CutShort`: A path that stops early.
* `Picture.CutFrom`: A picture that stops early.

## Theorems

* `Painter.shapes_flush`: Flushing adds the pending path to the shapes.
* `Painter.anchored_performAll`: Painters stay anchored.
* `Painter.continues_performAll`: Work goes on from what was there.
* `Painter.kept_finish`: What goes on is kept when the later picture is finished.
* `Painter.finish_cutFrom`: An interrupted picture is cut from the full one.
-/

namespace TurtleGraphics

namespace Painter

/-- The path that flushing makes of the pending one. -/
def pendingPath (p : Painter) (mode : FlushMode) : Path :=
  { elements := if mode = .close then p.pending.push .close else p.pending
    stroke := p.color
    width := p.width
    fill := if mode = .fill then some p.color else none }

/-- The shapes that flushing adds: the pending path, if there is one. -/
def pendingShapes (p : Painter) (mode : FlushMode) : List Shape :=
  if p.pending.isEmpty then [] else [.path (p.pendingPath mode)]

/-- The finished shapes. -/
def shapes (p : Painter) : List Shape := p.picture.shapes.toList

theorem flush_of_empty {p : Painter} (h : p.pending.isEmpty = true) (mode : FlushMode) :
    p.flush mode = p := by
  rw [flush, if_pos h]

theorem flush_of_nonempty {p : Painter} (h : ¬ p.pending.isEmpty = true) (mode : FlushMode) :
    p.flush mode =
      { p with
        picture := p.picture.push (.path (p.pendingPath mode))
        pending := #[]
        last := none } := by
  rw [flush, if_neg h]
  rfl

@[simp]
theorem color_flush (p : Painter) (mode : FlushMode) : (p.flush mode).color = p.color := by
  by_cases h : p.pending.isEmpty = true
  · rw [flush_of_empty h]
  · rw [flush_of_nonempty h]

@[simp]
theorem width_flush (p : Painter) (mode : FlushMode) : (p.flush mode).width = p.width := by
  by_cases h : p.pending.isEmpty = true
  · rw [flush_of_empty h]
  · rw [flush_of_nonempty h]

theorem shapes_flush (p : Painter) (mode : FlushMode) :
    (p.flush mode).shapes = p.shapes ++ p.pendingShapes mode := by
  by_cases h : p.pending.isEmpty = true
  · rw [flush_of_empty h, pendingShapes, if_pos h, List.append_nil]
  · rw [flush_of_nonempty h, pendingShapes, if_neg h]
    simp only [shapes, Picture.push, Array.toList_push]

theorem shapes_finish (p : Painter) : p.finish.shapes.toList = (p.flush .plain).shapes := rfl

@[simp]
theorem performAll_nil (p : Painter) : p.performAll [] = p := rfl

@[simp]
theorem performAll_cons (p : Painter) (c : Call) (calls : List Call) :
    p.performAll (c :: calls) = (p.perform c).performAll calls := rfl

theorem performAll_append (p : Painter) (first second : List Call) :
    p.performAll (first ++ second) = (p.performAll first).performAll second :=
  List.foldl_append

/-- The pending path ends with a line to the point that the painter remembers, or
    there is no pending path and no point is remembered. -/
def Anchored (p : Painter) : Prop :=
  (p.pending = #[] ∧ p.last = none) ∨
    ∃ (elements : Array PathElement) (stop : Point),
      p.pending = elements.push (.lineTo stop) ∧ p.last = some stop

theorem anchored_ofSize (size : Size) : (ofSize size).Anchored := .inl ⟨rfl, rfl⟩

theorem anchored_line (p : Painter) (start stop : Point) : (p.line start stop).Anchored :=
  .inr ⟨_, stop, rfl, rfl⟩

/-- Flushing leaves nothing pending and nothing remembered. -/
theorem anchored_flush {p : Painter} (h : p.Anchored) (mode : FlushMode) :
    (p.flush mode).pending = #[] ∧ (p.flush mode).last = none := by
  rcases h with ⟨hpending, hlast⟩ | ⟨elements, stop, hpending, _⟩
  · rw [flush_of_empty (by rw [hpending]; rfl)]
    exact ⟨hpending, hlast⟩
  · have hne : ¬ p.pending.isEmpty = true := by
      rw [hpending]
      simp only [Array.isEmpty_push, Bool.false_eq_true, not_false_eq_true]
    rw [flush_of_nonempty hne]
    exact ⟨rfl, rfl⟩

theorem anchored_perform {p : Painter} (h : p.Anchored) (c : Call) : (p.perform c).Anchored := by
  cases c with
  | line start stop => exact anchored_line p start stop
  | flush mode => exact .inl (anchored_flush h mode)
  | color c => exact .inl (anchored_flush h .plain)
  | width w => exact .inl (anchored_flush h .plain)
  | background c => exact .inl (anchored_flush h .plain)

theorem anchored_performAll {p : Painter} (h : p.Anchored) (calls : List Call) :
    (p.performAll calls).Anchored := by
  induction calls generalizing p with
  | nil => exact h
  | cons c rest ih => exact ih (anchored_perform h c)

/-- The shapes of a later moment go on from the painter `p`: first come its
    finished shapes, and after them its pending path, or a longer one with the same
    stroke. -/
structure Kept (p : Painter) (later : List Shape) : Prop where
  shapes : p.shapes <+: later
  pending : ¬ p.pending.isEmpty = true →
    ∃ path : Path, later[p.shapes.length]? = some (.path path) ∧
      path.stroke = p.color ∧ path.width = p.width ∧
      p.pending.toList <+: path.elements.toList

theorem Kept.append {p : Painter} {later : List Shape} (h : p.Kept later) (more : List Shape) :
    p.Kept (later ++ more) := by
  refine ⟨h.shapes.trans (List.prefix_append later more), fun hne => ?_⟩
  rcases h.pending hne with ⟨path, hget, hstyle⟩
  refine ⟨path, ?_, hstyle⟩
  rw [List.getElem?_append_left (List.getElem?_eq_some_iff.mp hget).1]
  exact hget

/-- The painter `q` is `p` at a later moment: what `p` had pending is either part of
    a finished shape by now, or it is still pending in the same color and width. -/
def Continues (p q : Painter) : Prop :=
  p.Kept q.shapes ∨
    (q.shapes = p.shapes ∧ q.color = p.color ∧ q.width = p.width ∧
      p.pending.toList <+: q.pending.toList)

theorem Continues.refl (p : Painter) : p.Continues p :=
  .inr ⟨rfl, rfl, rfl, List.prefix_refl _⟩

/-- Whatever is pending in the end, flushing it finishes what `p` had pending. -/
theorem Continues.kept_flush {p q : Painter} (h : p.Continues q) (mode : FlushMode) :
    p.Kept (q.flush mode).shapes := by
  rw [shapes_flush]
  rcases h with hkept | ⟨hshapes, hcolor, hwidth, hprefix⟩
  · exact hkept.append _
  · refine ⟨?_, fun hne => ⟨q.pendingPath mode, ?_, hcolor, hwidth, ?_⟩⟩
    · rw [hshapes]
      exact List.prefix_append _ _
    · -- The pending path of `q` is as long as that of `p`, so it is not empty.
      have hq : ¬ q.pending.isEmpty = true := by
        intro hempty
        rw [Array.isEmpty_iff.mp hempty] at hprefix
        exact hne (by simpa using hprefix)
      rw [pendingShapes, if_neg hq, hshapes]
      simp only [List.getElem?_concat_length]
    · unfold pendingPath
      by_cases hclose : mode = .close
      · simp only [if_pos hclose, Array.toList_push]
        exact hprefix.trans (List.prefix_append _ _)
      · simp only [if_neg hclose]
        exact hprefix

theorem Continues.line {p q : Painter} (h : p.Continues q) (start stop : Point) :
    p.Continues (q.line start stop) := by
  rcases h with hkept | ⟨hshapes, hcolor, hwidth, hprefix⟩
  · exact .inl hkept
  · refine .inr ⟨hshapes, hcolor, hwidth, hprefix.trans ?_⟩
    unfold Painter.line
    by_cases hlast : q.last.any (· == start) = true
    · simp only [if_pos hlast, Array.toList_push]
      exact List.prefix_append _ _
    · simp only [if_neg hlast, Array.toList_push, List.append_assoc]
      exact List.prefix_append _ _

/-- Every call goes on from what was there. All but a line flush first, and what
    is kept then is not touched by a change of style or by a background. -/
theorem Continues.perform {p q : Painter} (h : p.Continues q) (c : Call) :
    p.Continues (q.perform c) := by
  cases c with
  | line start stop => exact h.line start stop
  | flush mode => exact .inl (h.kept_flush mode)
  | color c => exact .inl (h.kept_flush .plain)
  | width w => exact .inl (h.kept_flush .plain)
  | background c =>
      have hkept := (h.kept_flush .plain).append [.background c]
      refine .inl ?_
      simpa only [Painter.perform, Painter.background, Painter.shapes, Picture.push,
        Array.toList_push] using hkept

theorem Continues.performAll {p q : Painter} (h : p.Continues q) (calls : List Call) :
    p.Continues (q.performAll calls) := by
  induction calls generalizing q with
  | nil => exact h
  | cons c rest ih => exact ih (h.perform c)

theorem continues_performAll (p : Painter) (calls : List Call) :
    p.Continues (p.performAll calls) :=
  (Continues.refl p).performAll calls

theorem kept_finish (p : Painter) (calls : List Call) :
    p.Kept (p.performAll calls).finish.shapes.toList :=
  (continues_performAll p calls).kept_flush .plain

end Painter

/-- One shape is a path that stops early on the way to the other: not filled, not
    closed, and with the same stroke. -/
def Shape.CutShort (s full : Shape) : Prop :=
  ∃ a b : Path, s = .path a ∧ full = .path b ∧ a.fill = none ∧ a.isClosed = false ∧
    a.stroke = b.stroke ∧ a.width = b.width ∧ a.elements.toList <+: b.elements.toList

/-- One picture stops early on the way to the other: every shape of it stands at the
    same place of the other, except that the last one may be a path cut short. -/
def Picture.CutFrom (p full : Picture) : Prop :=
  ∀ (i : Nat) (s : Shape), p.shapes[i]? = some s →
    ∃ s', full.shapes[i]? = some s' ∧ (s = s' ∨ i + 1 = p.shapes.size ∧ s.CutShort s')

namespace Painter

/-- An anchored path ends with a line, so it is closed only by the flush that asks for
    it. -/
theorem isClosed_pendingPath {p : Painter} (h : p.Anchored) (hne : ¬ p.pending.isEmpty = true)
    (mode : FlushMode) : (p.pendingPath mode).isClosed = decide (mode = .close) := by
  rcases h with ⟨hpending, _⟩ | ⟨elements, stop, hpending, _⟩
  · exact absurd (by rw [hpending]; rfl) hne
  · by_cases hclose : mode = .close
    · simp only [Path.isClosed, pendingPath, hclose, if_true, Array.back?_push, Option.any_some,
        PathElement.isClose, decide_true]
    · rw [decide_eq_false hclose]
      simp only [Path.isClosed, pendingPath, hpending, if_neg hclose, Array.back?_push,
        Option.any_some, PathElement.isClose]

/-- A picture finished now is cut from the picture that further work would have
    finished. -/
theorem finish_cutFrom {p : Painter} (h : p.Anchored) (calls : List Call) :
    p.finish.CutFrom (p.performAll calls).finish := by
  have hkept := p.kept_finish calls
  generalize (p.performAll calls).finish = full at hkept ⊢
  intro i s hget
  rw [← Array.getElem?_toList, shapes_finish, shapes_flush] at hget
  have hsize : p.finish.shapes.size = (p.shapes ++ p.pendingShapes .plain).length := by
    rw [← shapes_flush, ← shapes_finish, Array.length_toList]
  rw [hsize, ← Array.getElem?_toList]
  by_cases hi : i < p.shapes.length
  · -- The shapes that were finished stay where they are.
    rw [List.getElem?_append_left hi] at hget
    rcases hkept.shapes with ⟨more, hmore⟩
    refine ⟨s, ?_, .inl rfl⟩
    rw [← hmore, List.getElem?_append_left hi, hget]
  · by_cases hempty : p.pending.isEmpty = true
    · rw [pendingShapes, if_pos hempty, List.append_nil, List.getElem?_eq_none (Nat.le_of_not_lt hi)] at hget
      exact absurd hget (by simp only [reduceCtorEq, not_false_eq_true])
    · -- The one shape after them is the pending path.
      rw [pendingShapes, if_neg hempty] at hget ⊢
      have hlt := (List.getElem?_eq_some_iff.mp hget).1
      rw [List.length_append, List.length_singleton] at hlt
      have hlast : i = p.shapes.length := by omega
      rw [hlast, List.getElem?_concat_length, Option.some.injEq] at hget
      rcases hkept.pending hempty with ⟨path, hpath, hstroke, hwidth, hprefix⟩
      refine ⟨.path path, by rw [hlast]; exact hpath, .inr ⟨?_, p.pendingPath .plain, path,
        hget.symm, rfl, rfl, isClosed_pendingPath h hempty .plain, hstroke.symm, hwidth.symm,
        hprefix⟩⟩
      rw [List.length_append, List.length_singleton, hlast]

end Painter

end TurtleGraphics
