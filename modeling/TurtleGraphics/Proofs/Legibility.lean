import Mathlib.Data.List.Forall2
import Mathlib.Tactic.MkIffOfInductiveProp
import TurtleGraphics.Svg

/-!
# Legibility of the SVG Text

The document of a picture can be read back: two pictures have the same document only if
they are written alike part by part. No shape, no element of a path and no number gets
lost, none changes its place, and none can be taken for another.

Nothing in the text is escaped, and its parts are delimited by little more than the way
they begin. What makes it legible is that numbers are written with few characters, and that
none of these stands right after a number. So a number ends where the first other character
stands, and a part that is made of numbers and fixed texts ends where the last one of them
does.

Each part is therefore compared with the rest of the document present: texts that begin
with two parts of one kind are equal just if the parts are written alike and the rests are
equal. If the part can end with a number, the rests must not begin with a character of a
number. A sequence needs one thing more: what follows it must not begin like an item.

Numbers count as alike when their texts are equal. Coordinates are rounded, so that says
less than that the numbers are.

## Main definitions

* `isNumeral`, `Numeric`: The characters of numbers, and texts made of them.
* `Delimiting`: The texts that can stand after a number.
* `itemized`: A sequence of items with a mark before each.
* `Svg.SameColor`, `Svg.SamePoint`, `Svg.SameElement`: Parts of shapes written alike.
* `Svg.SamePath`, `Svg.SameShape`, `Svg.SameSize`: Shapes and canvases written alike.

## Theorems

* `Svg.numeric_coordinate`, `Svg.numeric_exact`: The characters numbers are written with.
* `append_eq_append_iff_of_numeric`: A number ends where its characters do.
* `itemized_append_eq_iff`: A sequence can be read if its items can.
* `Svg.pathData_append_eq_iff`: The elements of a path can be read.
* `Svg.shape_append_eq_iff`: A shape can be read.
* `Svg.render_eq_iff`: Pictures with the same document are written alike, and conversely.
-/

namespace TurtleGraphics

/-! ## Numbers -/

/-- The characters of written numbers: digits, signs and points, and the letters of the
    names of those that are not finite. -/
def isNumeral (c : Char) : Bool := c.isDigit || ['-', '.', 'N', 'a', 'i', 'n', 'f'].contains c

/-- A text with characters of numbers only. -/
def Numeric (s : List Char) : Prop := ∀ c ∈ s, isNumeral c = true

instance (s : List Char) : Decidable (Numeric s) :=
  List.decidableBAll (fun c => isNumeral c = true) s

theorem Numeric.append {s t : List Char} (hs : Numeric s) (ht : Numeric t) :
    Numeric (s ++ t) :=
  List.forall_mem_append.mpr ⟨hs, ht⟩

theorem Numeric.of_subset {s t : List Char} (ht : Numeric t) (h : s ⊆ t) : Numeric s :=
  fun c hc => ht c (h hc)

theorem Numeric.ite {s t : List Char} (hs : Numeric s) (ht : Numeric t) (p : Prop)
    [Decidable p] : Numeric (if p then s else t) := by
  split
  · exact hs
  · exact ht

theorem numeric_replicate_zero (n : Nat) : Numeric (List.replicate n '0') := by
  intro c hc
  rw [List.eq_of_mem_replicate hc]
  decide

theorem numeric_toDigits (n : Nat) : Numeric (Nat.toDigits 10 n) := by
  intro c hc
  have hdigit : c.isDigit = true := Nat.isDigit_of_mem_toDigits (by decide) (by decide) hc
  rw [isNumeral, hdigit, Bool.true_or]

namespace Decimal

theorem numeric_withPoint {digits : List Char} (h : Numeric digits) (places : Nat) :
    Numeric (withPoint digits places) := by
  have hpoint : Numeric ['.'] := by decide
  have hzero : Numeric ['0', '.'] := by decide
  rw [withPoint]
  split
  · exact (h.of_subset (List.take_subset _ _)).append
      (hpoint.append (h.of_subset (List.drop_subset _ _)))
  · exact hzero.append ((numeric_replicate_zero _).append h)

theorem numeric_text (d : Decimal) : Numeric d.text := by
  have hdigits := numeric_toDigits d.digits
  rw [text]
  split
  · exact hdigits.append (numeric_replicate_zero _)
  · exact numeric_withPoint hdigits _

end Decimal

namespace Scalar

theorem numeric_signText (negative : Bool) : Numeric (signText negative) := by
  cases negative <;> decide

theorem numeric_chars (v : Scalar) : Numeric v.chars := by
  rw [chars]
  split
  case h_1 => decide
  case h_2 => exact (numeric_signText _).append (by decide)
  case h_3 => exact (numeric_signText _).append (.ite (by decide) (Decimal.numeric_text _) _)

theorem numeric_fixedChars (places : Nat) (v : Scalar) : Numeric (fixedChars places v) := by
  rw [fixedChars]
  split
  · exact (numeric_signText _).append (Decimal.numeric_text _)
  · exact numeric_chars v

end Scalar

theorem dropTrailing_subset (c : Char) (s : List Char) : dropTrailing c s ⊆ s := by
  intro d hd
  rw [dropTrailing, List.mem_reverse] at hd
  exact List.mem_reverse.mp ((List.dropWhile_suffix _).subset hd)

theorem numeric_trimZeros {s : List Char} (h : Numeric s) : Numeric (trimZeros s) := by
  have htrimmed : Numeric (dropTrailing '.' (dropTrailing '0' s)) :=
    h.of_subset (List.Subset.trans (dropTrailing_subset _ _) (dropTrailing_subset _ _))
  exact .ite (by decide) (htrimmed.ite h _) _

namespace Svg

theorem numeric_coordinate (precision : Nat) (v : Scalar) :
    Numeric (coordinate precision v).toList := by
  rw [coordinate, String.toList_ofList]
  exact numeric_trimZeros (Scalar.numeric_fixedChars precision v)

theorem numeric_exact (v : Scalar) : Numeric (exact v).toList := by
  rw [exact]
  split
  · decide
  · rw [Scalar.text, String.toList_ofList]
    exact Scalar.numeric_chars v

end Svg

/-! ## Where parts of a text end -/

/-- A text that does not begin with a character of a number. -/
def Delimiting (s : List Char) : Prop := ∀ c ∈ s.head?, isNumeral c = false

@[simp]
theorem delimiting_cons (c : Char) (s : List Char) :
    Delimiting (c :: s) ↔ isNumeral c = false := by
  simp [Delimiting]

/-- What stands after numbers and between items. -/
@[simp]
theorem isNumeral_delimiters :
    isNumeral ' ' = false ∧ isNumeral ',' = false ∧ isNumeral ')' = false ∧
      isNumeral '"' = false ∧ isNumeral '\n' = false := by
  decide

theorem Numeric.takeWhile_append {s r : List Char} (hs : Numeric s) (hr : Delimiting r) :
    (s ++ r).takeWhile isNumeral = s := by
  have hnone : r.takeWhile isNumeral = [] := by
    cases r with
    | nil => rfl
    | cons c r => rw [List.takeWhile_cons, (delimiting_cons c r).mp hr, if_neg Bool.false_ne_true]
  rw [List.takeWhile_append_of_pos hs, hnone, List.append_nil]

/-- A number ends where its characters do. -/
theorem append_eq_append_iff_of_numeric {s t r r' : List Char} (hs : Numeric s)
    (ht : Numeric t) (hr : Delimiting r) (hr' : Delimiting r') :
    s ++ r = t ++ r' ↔ s = t ∧ r = r' := by
  constructor
  · intro h
    have hst : s = t := by
      rw [← hs.takeWhile_append hr, h, ht.takeWhile_append hr']
    rw [hst] at h
    exact ⟨hst, List.append_cancel_left h⟩
  · rintro ⟨rfl, rfl⟩
    rfl

/-- A sequence of items, each with a mark before it. -/
def itemized {α : Type} (mark : Char) (write : α → List Char) (xs : List α) : List Char :=
  xs.flatMap fun x => mark :: write x

section Itemized

variable {α : Type} {mark : Char} {write : α → List Char} {same : α → α → Prop}
  {r s : List Char}

theorem itemized_cons (x : α) (xs : List α) :
    itemized mark write (x :: xs) ++ r = mark :: (write x ++ (itemized mark write xs ++ r)) := by
  rw [itemized, List.flatMap_cons, List.cons_append, List.cons_append, List.append_assoc, itemized]

theorem delimiting_itemized (hmark : isNumeral mark = false) (hr : Delimiting r)
    (xs : List α) : Delimiting (itemized mark write xs ++ r) := by
  cases xs with
  | nil => exact hr
  | cons x xs => rwa [itemized_cons, delimiting_cons]

/-- Sequences can be read if their items can, and if what stands after a sequence is not
    taken for one more item. -/
theorem itemized_append_eq_iff (hmark : isNumeral mark = false)
    (hitem : ∀ {x y r s}, Delimiting r → Delimiting s →
      (write x ++ r = write y ++ s ↔ same x y ∧ r = s))
    (hr : Delimiting r) (hs : Delimiting s) (hrend : ∀ x t, mark :: (write x ++ t) ≠ r)
    (hsend : ∀ x t, mark :: (write x ++ t) ≠ s) {xs ys : List α} :
    itemized mark write xs ++ r = itemized mark write ys ++ s ↔
      List.Forall₂ same xs ys ∧ r = s := by
  induction xs generalizing ys with
  | nil =>
      cases ys with
      | nil => simp [itemized]
      | cons y ys =>
          rw [itemized_cons]
          simpa [itemized] using (hrend y _).symm
  | cons x xs ih =>
      cases ys with
      | nil =>
          rw [itemized_cons]
          simpa [itemized] using hsend x _
      | cons y ys =>
          rw [itemized_cons, itemized_cons, List.cons_inj_right,
            hitem (delimiting_itemized hmark hr xs) (delimiting_itemized hmark hs ys),
            List.forall₂_cons, and_assoc]
          exact and_congr_right fun _ => ih

end Itemized

/-! ## Parts that are written alike -/

namespace Svg

/-- Colors with the same texts of their four parts. -/
@[mk_iff]
structure SameColor (c d : Color) : Prop where
  r : exact c.r = exact d.r
  g : exact c.g = exact d.g
  b : exact c.b = exact d.b
  a : exact c.a = exact d.a

/-- Points with the same texts of their coordinates. -/
@[mk_iff]
structure SamePoint (precision : Nat) (p q : Point) : Prop where
  x : coordinate precision p.x = coordinate precision q.x
  y : coordinate precision p.y = coordinate precision q.y

/-- Elements of the same kind, with the same texts of all coordinates. -/
def SameElement (precision : Nat) : PathElement → PathElement → Prop
  | .moveTo p, .moveTo p' => SamePoint precision p p'
  | .lineTo p, .lineTo p' => SamePoint precision p p'
  | .quadTo c p, .quadTo c' p' => SamePoint precision c c' ∧ SamePoint precision p p'
  | .curveTo c d p, .curveTo c' d' p' =>
    SamePoint precision c c' ∧ SamePoint precision d d' ∧ SamePoint precision p p'
  | .close, .close => True
  | _, _ => False

/-- Paths with the same elements in the same order and the same style. -/
@[mk_iff]
structure SamePath (precision : Nat) (p q : Path) : Prop where
  elements : List.Forall₂ (SameElement precision) p.elements.toList q.elements.toList
  fill : Option.Rel SameColor p.fill q.fill
  stroke : SameColor p.stroke q.stroke
  width : exact p.width = exact q.width

/-- Shapes of the same kind that are written alike. -/
def SameShape (precision : Nat) : Shape → Shape → Prop
  | .path p, .path q => SamePath precision p q
  | .background c, .background d => SameColor c d
  | _, _ => False

/-- Canvases with the same texts of their sizes. -/
structure SameSize (precision : Nat) (s t : Size) : Prop where
  width : coordinate precision s.width = coordinate precision t.width
  height : coordinate precision s.height = coordinate precision t.height

variable {precision : Nat} {r s : List Char}

/-! ## Reading the parts of a shape -/

theorem coordinate_append_eq_iff {v w : Scalar} (hr : Delimiting r) (hs : Delimiting s) :
    (coordinate precision v).toList ++ r = (coordinate precision w).toList ++ s ↔
      coordinate precision v = coordinate precision w ∧ r = s := by
  rw [append_eq_append_iff_of_numeric (numeric_coordinate precision v)
    (numeric_coordinate precision w) hr hs, String.toList_inj]

theorem exact_append_eq_iff {v w : Scalar} (hr : Delimiting r) (hs : Delimiting s) :
    (exact v).toList ++ r = (exact w).toList ++ s ↔ exact v = exact w ∧ r = s := by
  rw [append_eq_append_iff_of_numeric (numeric_exact v) (numeric_exact w) hr hs,
    String.toList_inj]

theorem color_append_eq_iff {c d : Color} :
    (color c).toList ++ r = (color d).toList ++ s ↔ SameColor c d ∧ r = s := by
  simp [color, exact_append_eq_iff, sameColor_iff, and_assoc]

theorem point_append_eq_iff {p q : Point} (hr : Delimiting r) (hs : Delimiting s) :
    (point precision p).toList ++ r = (point precision q).toList ++ s ↔
      SamePoint precision p q ∧ r = s := by
  simp [point, coordinate_append_eq_iff, hr, hs, samePoint_iff, and_assoc]

/-- The letter of an element tells its kind, and with it how many points follow. -/
theorem pathElement_append_eq_iff {e f : PathElement} (hr : Delimiting r)
    (hs : Delimiting s) :
    (pathElement precision e).toList ++ r = (pathElement precision f).toList ++ s ↔
      SameElement precision e f ∧ r = s := by
  -- Letters of two kinds differ, and elements of one kind are compared point by point.
  cases e <;> cases f <;>
    simp [pathElement, point_append_eq_iff, hr, hs, SameElement, and_assoc]

theorem pathData_cons (e : PathElement) (es : List PathElement) :
    (pathData precision (e :: es)).toList =
      (pathElement precision e).toList ++
        itemized ' ' (fun e => (pathElement precision e).toList) es := by
  rw [pathData, String.toList_intercalate]
  induction es generalizing e with
  | nil => simp [itemized]
  | cons f es ih => simpa [itemized] using ih f

theorem pathElement_append_ne_quote (e : PathElement) (t : List Char) :
    (pathElement precision e).toList ++ t ≠ '"' :: r := by
  cases e <;> simp [pathElement]

/-- Path data ends at the quotation mark, which is not the letter of an element. -/
theorem pathData_append_eq_iff {es fs : List PathElement} :
    (pathData precision es).toList ++ '"' :: r = (pathData precision fs).toList ++ '"' :: s ↔
      List.Forall₂ (SameElement precision) es fs ∧ r = s := by
  cases es with
  | nil =>
      cases fs with
      | nil => simp [pathData]
      | cons f fs =>
          rw [pathData_cons, List.append_assoc]
          simpa [pathData] using (pathElement_append_ne_quote f _).symm
  | cons e es =>
      cases fs with
      | nil =>
          rw [pathData_cons, List.append_assoc]
          simpa [pathData] using pathElement_append_ne_quote e _
      | cons f fs =>
          have hquote : ∀ t, Delimiting ('"' :: t) := by simp
          rw [pathData_cons, pathData_cons, List.append_assoc, List.append_assoc,
            pathElement_append_eq_iff (delimiting_itemized (by simp) (hquote r) es)
              (delimiting_itemized (by simp) (hquote s) fs),
            itemized_append_eq_iff (by simp) pathElement_append_eq_iff (hquote r) (hquote s)
              (by simp) (by simp),
            List.forall₂_cons, List.cons_inj_right, and_assoc]

/-- How the inside of a path is painted. -/
def fillText : Option Color → String
  | some c => color c
  | none => "none"

theorem style_eq (p : Path) :
    style p = "fill: " ++ fillText p.fill ++ "; stroke: " ++ color p.stroke ++
      "; stroke-width: " ++ exact p.width :=
  rfl

theorem fillText_append_eq_iff {f g : Option Color} :
    (fillText f).toList ++ r = (fillText g).toList ++ s ↔ Option.Rel SameColor f g ∧ r = s := by
  -- The word for no fill begins with another letter than a color.
  cases f <;> cases g <;> simp [fillText, color, exact_append_eq_iff, sameColor_iff, and_assoc]

theorem style_append_eq_iff {p q : Path} :
    (style p).toList ++ '"' :: r = (style q).toList ++ '"' :: s ↔
      Option.Rel SameColor p.fill q.fill ∧ SameColor p.stroke q.stroke ∧
        exact p.width = exact q.width ∧ r = s := by
  simp [style_eq, fillText_append_eq_iff, color_append_eq_iff, exact_append_eq_iff]

/-! ## Reading a document -/

theorem shape_append_eq_iff {x y : Shape} :
    (shape precision x).toList ++ r = (shape precision y).toList ++ s ↔
      SameShape precision x y ∧ r = s := by
  -- The names of the elements tell a path from a background.
  cases x <;> cases y <;>
    simp [shape, attr, SameShape, samePath_iff, pathData_append_eq_iff, style_append_eq_iff,
      color_append_eq_iff, and_assoc]

theorem head_append_eq_iff {a b : Size} :
    (head precision a).toList ++ r = (head precision b).toList ++ s ↔
      SameSize precision a b ∧ r = s := by
  -- Both lengths stand there twice, by themselves and in the view box.
  have hparts : (head precision a).toList ++ r = (head precision b).toList ++ s ↔
      coordinate precision a.height = coordinate precision b.height ∧
        coordinate precision a.width = coordinate precision b.width ∧
        coordinate precision a.height = coordinate precision b.height ∧
        coordinate precision a.width = coordinate precision b.width ∧ r = s := by
    simp [head, attr, coordinate_append_eq_iff]
  rw [hparts]
  constructor
  · rintro ⟨hheight, hwidth, -, -, hrest⟩
    exact ⟨⟨hwidth, hheight⟩, hrest⟩
  · rintro ⟨⟨hwidth, hheight⟩, hrest⟩
    exact ⟨hheight, hwidth, hheight, hwidth, hrest⟩

/-- What stands after the attributes of a document. -/
def body (precision : Nat) : List Shape → List Char
  | [] => "/>".toList
  | x :: xs =>
    '>' :: (itemized '\n' (fun x => (shape precision x).toList) (x :: xs) ++ "\n</svg>".toList)

theorem toList_render (p : Picture) :
    (render precision p).toList =
      (head precision p.size).toList ++ body precision p.shapes.toList := by
  rcases p with ⟨size, ⟨shapes⟩⟩
  cases shapes with
  | nil => simp [render, Picture.isEmpty, body]
  | cons x xs =>
      simp [render, Picture.isEmpty, body, itemized, String.toList_join, List.flatMap_map]

theorem body_eq_iff {xs ys : List Shape} :
    body precision xs = body precision ys ↔ List.Forall₂ (SameShape precision) xs ys := by
  -- The line after the last shape closes an element, and shapes open one.
  have hend : ∀ x t, '\n' :: ((shape precision x).toList ++ t) ≠ "\n</svg>".toList := by
    intro x t
    cases x <;> simp [shape]
  cases xs with
  | nil => cases ys <;> simp [body]
  | cons x xs =>
      cases ys with
      | nil => simp [body]
      | cons y ys =>
          rw [body, body, List.cons_inj_right,
            itemized_append_eq_iff (by simp) (fun _ _ => shape_append_eq_iff) (by simp)
              (by simp) hend hend]
          exact and_iff_left rfl

/-- The text of a picture keeps all shapes, their order, and every number as far as it is
    written: two pictures have the same document just if their canvases are written alike
    and their shapes are, one by one. -/
theorem render_eq_iff (precision : Nat) (p q : Picture) :
    render precision p = render precision q ↔
      SameSize precision p.size q.size ∧
        List.Forall₂ (SameShape precision) p.shapes.toList q.shapes.toList := by
  rw [← String.toList_inj, toList_render, toList_render, head_append_eq_iff, body_eq_iff]

end Svg

end TurtleGraphics
