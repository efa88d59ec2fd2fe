import Mathlib.Data.List.Chain
import TurtleGraphics.Proofs.Drawing

/-!
# The Form of a Path

A path consists of parts. Each part begins with a move to where it starts and goes on
with lines, and no part begins where the one before it has ended, because then it would
have been continued. Closing a path comes last.

All of this is about neighbours. `PathElement.Precedes` says which element may stand
directly before which, and the elements of a path form a chain of that relation. So it
is enough to look at the place where a painter adds something, and there it matters that
the painter remembers where its pending path ends. That it does is `Painter.Anchored`.

A painter is `Painter.Orderly` if its pending path and all its finished ones have this
form. Every call keeps it so, whatever was asked for before.

## Main definitions

* `PathElement.Precedes`: Which elements may be neighbours.
* `Partwise`: Elements that form parts as described.
* `Sketch`: Elements with at least one part, and with the last one not closed yet.
* `Painter.Orderly`: A painter all of whose paths have this form.

## Theorems

* `partwise_of_isChain`: Chains of neighbours form parts.
* `Sketch.line`, `Sketch.move`: A sketch with one more line, or one more part.
* `Painter.sketch_line`: A line leaves a sketch pending.
* `Painter.orderly_perform`: Every call keeps a painter orderly.
* `Painter.orderly_performAll`: All painters are orderly.
* `paths_partwise`: The form of all paths that painters emit, and what they remember.
-/

namespace TurtleGraphics

/-- The first element may stand directly before the second one. A move is followed by a
    line. A line is followed by anything but a move to the point where it ends. Nothing
    follows a closing element. -/
def PathElement.Precedes : PathElement → PathElement → Prop
  | .moveTo _, .lineTo _ => True
  | .lineTo _, .lineTo _ => True
  | .lineTo p, .moveTo q => (p == q) = false
  | .lineTo _, .close => True
  | _, _ => False

/-- Elements that form parts: moves with lines behind them, no move to where the line
    before it ends, and a closing element only at the very end. -/
structure Partwise (elements : List PathElement) : Prop where
  /-- A part begins at the start. -/
  starts : ∃ p, elements.head? = some (.moveTo p)
  /-- Something is drawn. -/
  draws : ∃ p, .lineTo p ∈ elements
  /-- Directly after every move there is a line. -/
  moves : ∀ i p, elements[i]? = some (.moveTo p) → ∃ q, elements[i + 1]? = some (.lineTo q)
  /-- Every move goes to another point than the line directly before it. -/
  leaps : ∀ i p q, elements[i]? = some (.lineTo p) → elements[i + 1]? = some (.moveTo q) →
    (p == q) = false
  /-- Nothing comes after a closing element. -/
  closes : ∀ i, elements[i]? = some .close → i + 1 = elements.length
  /-- At most one element is a closing one. -/
  closesOnce : elements.countP PathElement.isClose ≤ 1

section

variable {elements : List PathElement}

theorem PathElement.isClose_iff (e : PathElement) : e.isClose = true ↔ e = .close := by
  cases e with
  | close => exact ⟨fun _ => rfl, fun _ => rfl⟩
  | moveTo | lineTo | quadTo | curveTo => exact ⟨nofun, nofun⟩

theorem precedes_of_getElem? (h : elements.IsChain PathElement.Precedes) {i : Nat}
    {e f : PathElement} (he : elements[i]? = some e) (hf : elements[i + 1]? = some f) :
    e.Precedes f := by
  rcases List.getElem?_eq_some_iff.mp he with ⟨_, rfl⟩
  rcases List.getElem?_eq_some_iff.mp hf with ⟨hi, rfl⟩
  exact List.isChain_iff_getElem.mp h i hi

/-- An element that is not the last one has a neighbour behind it. -/
theorem exists_next_of_ne_last {i : Nat} {e : PathElement} (he : elements[i]? = some e)
    (hlast : elements.getLast? ≠ some e) : ∃ f, elements[i + 1]? = some f := by
  have hi := (List.getElem?_eq_some_iff.mp he).1
  by_cases hnext : i + 1 < elements.length
  · exact ⟨elements[i + 1], List.getElem?_eq_getElem hnext⟩
  · have hsame : elements.length - 1 = i := by omega
    rw [List.getLast?_eq_getElem?, hsame] at hlast
    exact absurd he hlast

/-- The closing element is the only one, since nothing comes after it. -/
theorem countP_isClose_le (h : ∀ i, elements[i]? = some .close → i + 1 = elements.length) :
    elements.countP PathElement.isClose ≤ 1 := by
  rcases List.eq_nil_or_concat' elements with rfl | ⟨init, last, rfl⟩
  · exact Nat.zero_le 1
  · have hinit : init.countP PathElement.isClose = 0 := by
      refine List.countP_eq_zero.mpr fun e hmem hclose => ?_
      rcases List.getElem?_of_mem hmem with ⟨i, hi⟩
      have hlt := (List.getElem?_eq_some_iff.mp hi).1
      have hget : (init ++ [last])[i]? = some .close := by
        rw [List.getElem?_append_left hlt, hi, (PathElement.isClose_iff e).mp hclose]
      have hend := h i hget
      rw [List.length_append, List.length_singleton] at hend
      omega
    rw [List.countP_append, hinit, Nat.zero_add]
    exact List.countP_le_length

/-- A chain of neighbours forms parts if it begins with a move and does not end with
    one. -/
theorem partwise_of_isChain (hstart : ∃ p, elements.head? = some (.moveTo p))
    (hchain : elements.IsChain PathElement.Precedes)
    (hlast : ∀ p, elements.getLast? ≠ some (.moveTo p)) : Partwise elements := by
  have hmoves : ∀ i p, elements[i]? = some (.moveTo p) →
      ∃ q, elements[i + 1]? = some (.lineTo q) := by
    intro i p hi
    rcases exists_next_of_ne_last hi (hlast p) with ⟨f, hf⟩
    have hprecedes := precedes_of_getElem? hchain hi hf
    cases f with
    | lineTo q => exact ⟨q, hf⟩
    | moveTo | quadTo | curveTo | close => exact hprecedes.elim
  have hcloses : ∀ i, elements[i]? = some .close → i + 1 = elements.length := by
    intro i hi
    have hlt := (List.getElem?_eq_some_iff.mp hi).1
    by_contra hne
    have hnext : i + 1 < elements.length := by omega
    exact (precedes_of_getElem? hchain hi (List.getElem?_eq_getElem hnext)).elim
  have hdraws : ∃ p, PathElement.lineTo p ∈ elements := by
    rcases hstart with ⟨p, hp⟩
    rw [List.head?_eq_getElem?] at hp
    rcases hmoves 0 p hp with ⟨q, hq⟩
    exact ⟨q, List.mem_of_getElem? hq⟩
  exact ⟨hstart, hdraws, hmoves, fun i p q hp hq => precedes_of_getElem? hchain hp hq, hcloses,
    countP_isClose_le hcloses⟩

/-- Elements as a painter has them pending: parts, the last of which ends with a line to
    the point `stop`. -/
structure Sketch (elements : List PathElement) (stop : Point) : Prop where
  starts : ∃ p, elements.head? = some (.moveTo p)
  chain : elements.IsChain PathElement.Precedes
  ends : elements.getLast? = some (.lineTo stop)

namespace Sketch

variable {stop : Point}

theorem single (start stop : Point) : Sketch [.moveTo start, .lineTo stop] stop :=
  ⟨⟨start, rfl⟩, .cons_cons trivial (.singleton _), rfl⟩

/-- What may follow a line can be put behind a sketch. -/
theorem append (h : Sketch elements stop) {more : List PathElement}
    (hmore : more.IsChain PathElement.Precedes)
    (hnext : ∀ e ∈ more.head?, (PathElement.lineTo stop).Precedes e) :
    (∃ p, (elements ++ more).head? = some (.moveTo p)) ∧
      (elements ++ more).IsChain PathElement.Precedes := by
  constructor
  · rcases h.starts with ⟨p, hp⟩
    exact ⟨p, by rw [List.head?_append, hp, Option.some_or]⟩
  · refine List.isChain_append.mpr ⟨h.chain, hmore, fun e he f hf => ?_⟩
    rw [h.ends] at he
    rw [← Option.some.inj he]
    exact hnext f hf

/-- A line continues the last part. -/
theorem line (h : Sketch elements stop) (stop' : Point) :
    Sketch (elements ++ [.lineTo stop']) stop' := by
  rcases h.append (.singleton (.lineTo stop')) fun e he => by cases he; trivial with
    ⟨hstarts, hchain⟩
  exact ⟨hstarts, hchain, List.getLast?_concat⟩

/-- A line from another point begins a new part. -/
theorem move (h : Sketch elements stop) {start : Point} (hstart : (stop == start) = false)
    (stop' : Point) : Sketch (elements ++ [.moveTo start, .lineTo stop']) stop' := by
  rcases h.append (single start stop').chain fun e he => by cases he; exact hstart with
    ⟨hstarts, hchain⟩
  refine ⟨hstarts, hchain, ?_⟩
  rw [List.getLast?_append]
  rfl

theorem partwise (h : Sketch elements stop) : Partwise elements := by
  refine partwise_of_isChain h.starts h.chain fun p hp => ?_
  rw [h.ends] at hp
  cases hp

theorem partwise_closed (h : Sketch elements stop) : Partwise (elements ++ [.close]) := by
  rcases h.append (.singleton .close) fun e he => by cases he; trivial with ⟨hstarts, hchain⟩
  refine partwise_of_isChain hstarts hchain fun p hp => ?_
  rw [List.getLast?_concat] at hp
  cases hp

end Sketch

end

namespace Painter

/-- A painter whose pending path, if there is one, is a sketch up to the point that it
    remembers, and whose finished paths all consist of parts. -/
structure Orderly (p : Painter) : Prop where
  pending : (p.pending = #[] ∧ p.last = none) ∨
    ∃ stop, Sketch p.pending.toList stop ∧ p.last = some stop
  shapes : ∀ path, .path path ∈ p.shapes → Partwise path.elements.toList

theorem orderly_ofSize (size : Size) : (ofSize size).Orderly :=
  ⟨.inl ⟨rfl, rfl⟩, fun _ h => absurd h List.not_mem_nil⟩

/-- A line leaves a sketch pending. Whether it begins a new part is decided by the point
    that is remembered, and that is where the last part ends. -/
theorem sketch_line {p : Painter} (h : p.Orderly) (start stop : Point) :
    Sketch (p.line start stop).pending.toList stop := by
  by_cases hcontinues : p.last.any (· == start) = true
  · simp only [line, if_pos hcontinues, Array.toList_push]
    rcases h.pending with ⟨_, hlast⟩ | ⟨stop', hsketch, _⟩
    · rw [hlast] at hcontinues
      exact absurd hcontinues Bool.false_ne_true
    · exact hsketch.line stop
  · simp only [line, if_neg hcontinues, Array.toList_push, List.append_assoc]
    rcases h.pending with ⟨hpending, _⟩ | ⟨stop', hsketch, hlast⟩
    · rw [hpending]
      exact .single start stop
    · rw [hlast, Option.any_some, Bool.not_eq_true] at hcontinues
      exact hsketch.move hcontinues stop

/-- Whatever path a flush adds consists of parts. -/
theorem partwise_pendingPath {p : Painter} (h : p.Orderly) (hne : ¬ p.pending.isEmpty = true)
    (mode : FlushMode) : Partwise (p.pendingPath mode).elements.toList := by
  rcases h.pending with ⟨hpending, _⟩ | ⟨stop, hsketch, _⟩
  · exact absurd (by rw [hpending]; rfl) hne
  · unfold pendingPath
    by_cases hclose : mode = .close
    · simp only [if_pos hclose, Array.toList_push]
      exact hsketch.partwise_closed
    · simp only [if_neg hclose]
      exact hsketch.partwise

theorem Orderly.anchored {p : Painter} (h : p.Orderly) : p.Anchored := by
  rcases h.pending with hnone | ⟨stop, hsketch, hlast⟩
  · exact .inl hnone
  · rcases List.getLast?_eq_some_iff.mp hsketch.ends with ⟨init, hinit⟩
    refine .inr ⟨init.toArray, stop, ?_, hlast⟩
    rw [← Array.toList_inj, hinit, Array.toList_push]

/-- Every call keeps a painter orderly. A line makes the sketch longer, and every other
    call leaves nothing pending. -/
theorem orderly_perform {p : Painter} (h : p.Orderly) (c : Call) : (p.perform c).Orderly := by
  refine ⟨?_, fun path hmem => ?_⟩
  · have hflush := anchored_flush h.anchored
    cases c with
    | line start stop => exact .inr ⟨stop, sketch_line h start stop, rfl⟩
    | flush mode => exact .inl (hflush mode)
    | color c => exact .inl (hflush .plain)
    | width w => exact .inl (hflush .plain)
    | background c => exact .inl (hflush .plain)
  · rw [shapes_perform, List.mem_append] at hmem
    rcases hmem with hmem | hmem
    · exact h.shapes path hmem
    · rcases path_of_mem_emitted hmem with ⟨hne, rfl⟩
      exact partwise_pendingPath h hne c.mode

theorem orderly_performAll {p : Painter} (h : p.Orderly) (calls : List Call) :
    (p.performAll calls).Orderly := by
  induction calls generalizing p with
  | nil => exact h
  | cons c calls ih => exact ih (orderly_perform h c)

/-- The point that is remembered is where the last pending element ends. -/
theorem Orderly.last_eq {p : Painter} (h : p.Orderly) :
    (p.last = none ↔ p.pending = #[]) ∧
      ∀ e ∈ p.pending.back?, ∃ point, e.endpoint? = some point ∧ p.last = some point := by
  rcases h.pending with ⟨hpending, hlast⟩ | ⟨stop, hsketch, hlast⟩
  · rw [hpending, hlast]
    exact ⟨⟨fun _ => rfl, fun _ => rfl⟩, nofun⟩
  · refine ⟨⟨fun hnone => ?_, fun hempty => ?_⟩, fun e he => ⟨stop, ?_, hlast⟩⟩
    · rw [hlast] at hnone
      cases hnone
    · have hends := hsketch.ends
      rw [hempty] at hends
      cases hends
    · rw [← Array.getLast?_toList, hsketch.ends] at he
      rw [← Option.some.inj he]
      rfl

end Painter

/-- The paths of a picture are those of its shapes. -/
theorem Picture.mem_paths_iff {picture : Picture} {path : Path} :
    path ∈ picture.paths ↔ .path path ∈ picture.shapes.toList := by
  rw [Picture.paths, List.mem_filterMap]
  constructor
  · rintro ⟨s, hs, hpath⟩
    cases s with
    | path p =>
        rw [← Option.some.inj hpath]
        exact hs
    | background c => cases hpath
  · intro h
    exact ⟨.path path, h, rfl⟩

/-- Whatever a painter is asked to do, every path that it has finished, every path of the
    picture that it would finish with and the pending path consist of parts as described.
    A point is remembered exactly while a path is pending, and it is where the last
    element of that path ends. -/
theorem paths_partwise (size : Size) (calls : List Painter.Call) :
    let p := (Painter.ofSize size).performAll calls
    (∀ path ∈ p.picture.paths, Partwise path.elements.toList) ∧
      (∀ path ∈ p.finish.paths, Partwise path.elements.toList) ∧
      (p.pending ≠ #[] → Partwise p.pending.toList) ∧
      (p.last = none ↔ p.pending = #[]) ∧
      ∀ e ∈ p.pending.back?, ∃ point, e.endpoint? = some point ∧ p.last = some point := by
  intro p
  have horderly : ∀ calls, ((Painter.ofSize size).performAll calls).Orderly :=
    Painter.orderly_performAll (Painter.orderly_ofSize size)
  refine ⟨fun path hpath => ?_, fun path hpath => ?_, fun hne => ?_, (horderly calls).last_eq⟩
  · exact (horderly calls).shapes path (Picture.mem_paths_iff.mp hpath)
  · -- Finishing is one more flush.
    rw [Picture.mem_paths_iff, Painter.shapes_finish_performAll] at hpath
    exact (horderly (calls ++ [.flush .plain])).shapes path hpath
  · rcases (horderly calls).pending with ⟨hpending, _⟩ | ⟨stop, hsketch, _⟩
    · exact absurd hpending hne
    · exact hsketch.partwise

/-- A line that is closed, and another line behind it that is still pending. -/
theorem paths_partwise_closed :
    let calls : List Painter.Call :=
      [.line ⟨0.0, 0.0⟩ ⟨1.0, 0.0⟩, .flush .close, .line ⟨1.0, 0.0⟩ ⟨1.0, 1.0⟩]
    let p := (Painter.ofSize ⟨2.0, 2.0⟩).performAll calls
    (∃ path, path ∈ p.picture.paths ∧ path.isClosed = true ∧ Partwise path.elements.toList) ∧
      p.pending ≠ #[] ∧ Partwise p.pending.toList ∧ p.last = some ⟨1.0, 1.0⟩ := by
  intro calls p
  have h := paths_partwise ⟨2.0, 2.0⟩ calls
  let path : Path :=
    ⟨#[.moveTo ⟨0.0, 0.0⟩, .lineTo ⟨1.0, 0.0⟩, .close], .black, 1.0, none⟩
  have hpath : path ∈ p.picture.paths := List.mem_singleton_self path
  have hne : p.pending ≠ #[] := Array.push_ne_empty
  exact ⟨⟨path, hpath, rfl, h.1 path hpath⟩, hne, h.2.2.1 hne, rfl⟩

end TurtleGraphics
