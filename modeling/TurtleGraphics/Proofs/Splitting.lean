import TurtleGraphics.Proofs.Concatenation
import TurtleGraphics.Proofs.Places
import TurtleGraphics.Proofs.Scanning

/-!
# Parameters and Their Brackets

A parameter list is read up to the bracket that closes it and then cut at the commas
outside all brackets. Reading and cutting count brackets, each for itself. Here the counts
are shown to agree, so that what is cut has its brackets in order.

All counting is compared with `Brackets.level`. A text *leaves* some number of brackets if
the count is higher by as many behind it, wherever it started. Such a text has no closing
bracket without a partner (`Brackets.Leaves.not_unopened`), and what is left are the opening
ones without a partner. The text of a list leaves none if the list was closed. The commas
stand where the count is zero, so all pieces but the last leave none, and the last one
leaves what the list leaves.

Pieces are read with the places where they start, and a comma stands between two of them.
So their places are in order, do not touch, and hold the texts of the pieces.

## Main definitions

* `Brackets.Leaves`: How many brackets are open behind a text.
* `Span.slice`: The text at a place.
* `Params.Matched`: Only the last parameter of a list that is not closed can have an open
  bracket.

## Theorems

* `Brackets.Leaves.not_unopened`, `Brackets.Leaves.unclosed_iff`: What is left.
* `Enclosed.exists_leaves_read`: How many brackets a list leaves.
* `exists_leaves_pieces`: How many brackets its pieces leave.
* `occupies_of_mem_pieces`, `pairwise_pieces`: Where the pieces stand.
* `Text.foldl_level_trim`: White space does not matter for brackets.
* `Cursor.matched_readParams`: Parameters have their brackets in order.
* `Cursor.slice_of_mem_readParams`: Parameters stand where they say.
* `matched_of_mem_statements`: All lists of a text have their brackets in order.
-/

namespace TurtleGraphics

namespace Brackets

variable {α : Type} [DecidableEq α] {b : Brackets α} {a : α} {items more : List α}
  {depth n m : Nat}

variable (b) in
/-- Behind the items `n` more brackets are open than before them, however many these were. -/
def Leaves (n : Nat) (items : List α) : Prop :=
  ∀ depth, items.foldl b.level depth = depth + n

theorem level_succ (h : ¬ (a = b.closing ∧ depth = 0)) :
    b.level (depth + 1) a = b.level depth a + 1 := by
  unfold level
  split
  · have hpos : depth ≠ 0 := fun hzero => h ⟨‹_›, hzero⟩
    omega
  · split <;> rfl

/-- One more open bracket stays open, unless some closing bracket is met where nothing else
    is open. -/
theorem foldl_level_succ (items : List α) (depth : Nat) :
    items.foldl b.level (depth + 1)
      = items.foldl b.level depth + if b.sinks depth items then 0 else 1 := by
  induction items generalizing depth with
  | nil => rfl
  | cons a items ih =>
      rw [List.foldl_cons, List.foldl_cons, sinks]
      by_cases hsinks : a = b.closing ∧ depth = 0
      · rw [decide_eq_true hsinks, hsinks.1, hsinks.2, level_closing, level_closing]
        rfl
      · rw [decide_eq_false hsinks, Bool.false_or, level_succ hsinks, ih]

/-- Whether a bracket is unopened can be told from the count. -/
theorem unopened_iff_foldl : b.Unopened items ↔ items.foldl b.level 1 = items.foldl b.level 0 := by
  rw [unopened_iff, foldl_level_succ items 0]
  cases b.sinks 0 items <;> simp

namespace Leaves

theorem not_unopened (h : b.Leaves n items) : ¬ b.Unopened items := by
  rw [unopened_iff_foldl, h, h]
  omega

theorem unclosed_iff (h : b.Leaves n items) : b.Unclosed items ↔ 0 < n := by
  rw [Brackets.unclosed_iff, h, Nat.zero_add]

theorem nil : b.Leaves 0 [] := fun _ => rfl

/-- One more item, which must not close what is not open. -/
theorem concat (h : b.Leaves n items) (ha : a = b.closing → 0 < n) :
    b.Leaves (b.level n a) (items ++ [a]) := by
  intro depth
  rw [List.foldl_append, List.foldl_cons, List.foldl_nil, h]
  unfold level
  split
  · have hpos := ha ‹_›
    omega
  · split <;> omega

/-- What follows on a text that leaves no brackets leaves what the whole leaves. -/
theorem of_append (h : b.Leaves 0 items) (hall : b.Leaves n (items ++ more)) :
    b.Leaves n more := by
  intro depth
  have hdepth := hall depth
  rwa [List.foldl_append, h, Nat.add_zero] at hdepth

/-- A closing bracket is met where something is open. -/
theorem pos_of_append_closing (h : b.Leaves n items)
    (hall : b.Leaves m (items ++ b.closing :: more)) : 0 < n := by
  refine Nat.pos_of_ne_zero fun hzero => hall.not_unopened ?_
  rw [unopened_iff, sinks_iff]
  exact ⟨items, more, rfl, by rw [h, hzero]⟩

end Leaves

/-- Two texts with the same count leave the same. -/
theorem leaves_congr {β : Type} [DecidableEq β] {b' : Brackets β} {others : List β}
    (h : ∀ depth, items.foldl b.level depth = others.foldl b'.level depth) :
    b.Leaves n items ↔ b'.Leaves n others :=
  forall_congr' fun depth => by rw [h]

/-- Reading between round brackets counts as everybody does. -/
theorem round_level (depth : Nat) (c : Char) :
    round.level depth c
      = if c = '(' then depth + 1 else if c = ')' then depth - 1 else depth := by
  unfold level
  by_cases hclosing : c = ')'
  · rw [hclosing]
    rfl
  · rw [if_neg hclosing, if_neg (show ¬ c = round.closing from hclosing)]
    rfl

end Brackets

open Brackets

/-- What is read of a list leaves no bracket if the list was closed, and some number of
    them otherwise. -/
theorem Enclosed.exists_leaves_readFrom (stops : Char → Bool) {depth : Nat}
    {taken : List Char} (text : List Char) (h : round.Leaves depth taken.reverse) :
    let e := readFrom .round stops depth taken text
    ∃ n, round.Leaves n e.inside ∧ (e.closed = true → n = 0) := by
  induction text generalizing depth taken with
  | nil => exact ⟨depth, h, fun hclosed => absurd hclosed Bool.false_ne_true⟩
  | cons c rest ih =>
      unfold readFrom
      by_cases hstop : stops c = true
      · rw [if_pos hstop]
        exact ⟨depth, h, fun hclosed => absurd hclosed Bool.false_ne_true⟩
      rw [if_neg hstop]
      by_cases hclosing : c = Delimiter.round.closing
      · rw [if_pos hclosing]
        cases depth with
        | zero => exact ⟨0, h, fun _ => rfl⟩
        | succ depth =>
            refine ih ?_
            rw [List.reverse_cons, hclosing]
            exact h.concat fun _ => Nat.succ_pos depth
      · rw [if_neg hclosing]
        refine ih ?_
        have hlevel : (if c = Delimiter.round.opening then depth + 1 else depth)
            = round.level depth c := (if_neg hclosing).symm
        rw [List.reverse_cons, hlevel]
        exact h.concat fun hc => absurd hc hclosing

theorem Enclosed.exists_leaves_read (stops : Char → Bool) (text : List Char) :
    let e := read .round stops text
    ∃ n, round.Leaves n e.inside ∧ (e.closed = true → n = 0) :=
  exists_leaves_readFrom stops text .nil

/-- All pieces but the last leave no brackets, and the last one leaves what the whole
    leaves. -/
theorem exists_leaves_pieces {depth n : Nat} (start : Nat) (taken : List Char)
    {text : List Char} (h : round.Leaves depth taken.reverse)
    (hall : round.Leaves n (taken.reverse ++ text)) :
    ∃ init last, pieces depth start taken text = init ++ [last] ∧
      (∀ piece ∈ init, round.Leaves 0 piece.2) ∧ round.Leaves n last.2 := by
  induction text generalizing depth start taken with
  | nil =>
      rw [List.append_nil] at hall
      exact ⟨[], (start, taken.reverse), rfl, nofun, hall⟩
  | cons c rest ih =>
      have hstep : taken.reverse ++ c :: rest = (taken.reverse ++ [c]) ++ rest := by
        rw [List.append_assoc, List.singleton_append]
      unfold pieces
      by_cases hcut : c = ',' ∧ depth = 0
      · -- A comma outside all brackets: the count starts anew behind it.
        rcases hcut with ⟨rfl, rfl⟩
        have hcomma : round.Leaves 0 (taken.reverse ++ [',']) := h.concat (by decide)
        rw [hstep] at hall
        rcases ih (start + taken.length + 1) [] .nil (hcomma.of_append hall) with
          ⟨init, last, hpieces, hinit, hlast⟩
        refine ⟨(start, taken.reverse) :: init, last, ?_, ?_, hlast⟩
        · rw [if_pos ⟨rfl, rfl⟩, hpieces, List.cons_append]
        · exact List.forall_mem_cons.mpr ⟨h, hinit⟩
      · rw [if_neg hcut]
        have hopen : c = round.closing → 0 < depth := by
          rintro rfl
          exact h.pos_of_append_closing hall
        have hnext := h.concat hopen
        rw [hstep, ← List.reverse_cons] at hall
        rw [round_level, ← List.reverse_cons] at hnext
        exact ih start (c :: taken) hnext hall

/-- Pieces stand in the text that they were cut from. -/
theorem occupies_of_mem_pieces {depth start : Nat} {taken text : List Char}
    {piece : Nat × List Char} (h : piece ∈ pieces depth start taken text) :
    Block.Occupies start (taken.reverse ++ text) ⟨piece.1, piece.2, true⟩ := by
  induction text generalizing depth start taken with
  | nil =>
      rw [pieces, List.mem_singleton] at h
      subst h
      exact ⟨[], [], rfl, rfl⟩
  | cons c rest ih =>
      unfold pieces at h
      by_cases hcut : c = ',' ∧ depth = 0
      · rw [if_pos hcut, List.mem_cons] at h
        rcases h with rfl | h
        · exact ⟨[], c :: rest, rfl, rfl⟩
        · -- What was taken and the comma are passed over.
          have hpassed : Cursor.Proceeds ⟨start, taken.reverse ++ c :: rest⟩
              ⟨start + taken.length + 1, rest⟩ := by
            refine ⟨taken.reverse ++ [c], ?_, ?_⟩
            · rw [List.append_assoc, List.singleton_append]
            · rw [List.length_append, List.length_reverse, List.length_singleton, Nat.add_assoc]
          exact .of_proceeds hpassed (ih h)
      · rw [if_neg hcut] at h
        have hrest := ih h
        rwa [List.reverse_cons, List.append_assoc, List.singleton_append] at hrest

/-- Between a piece and the next one there is a comma. -/
theorem pairwise_pieces (depth start : Nat) (taken text : List Char) :
    (pieces depth start taken text).Pairwise fun a b => a.1 + a.2.length < b.1 := by
  induction text generalizing depth start taken with
  | nil => exact List.pairwise_singleton _ _
  | cons c rest ih =>
      unfold pieces
      by_cases hcut : c = ',' ∧ depth = 0
      · rw [if_pos hcut]
        refine List.pairwise_cons.mpr ⟨fun piece hpiece => ?_, ih _ _ _⟩
        have hplace := place_of_mem_pieces hpiece
        simp only [List.length_reverse]
        omega
      · rw [if_neg hcut]
        exact ih _ _ _

/-- Characters of a class without brackets do not count. -/
theorem Bracketless.foldl_level_of_forall {p : Char → Bool} (h : Bracketless p)
    {text : List Char} (hall : ∀ c ∈ text, p c = true) (depth : Nat) :
    text.foldl round.level depth = depth := by
  induction text with
  | nil => rfl
  | cons c text ih =>
      rcases List.forall_mem_cons.mp hall with ⟨hc, hall⟩
      rw [List.foldl_cons, h.level hc, ih hall]

/-- White space at the ends of a text holds no brackets. -/
theorem Text.foldl_level_trim (text : List Char) (depth : Nat) :
    (Text.trim text).foldl round.level depth = text.foldl round.level depth := by
  have hspace : Bracketless Text.isWhiteSpace := ⟨rfl, rfl⟩
  have hend : ∀ text : List Char,
      (Text.trimEnd text).foldl round.level depth = text.foldl round.level depth := by
    intro text
    have hparts : Text.trimEnd text ++ (text.reverse.takeWhile Text.isWhiteSpace).reverse
        = text := by
      rw [Text.trimEnd, ← List.reverse_append, List.takeWhile_append_dropWhile,
        List.reverse_reverse]
    have hblank : ∀ c ∈ (text.reverse.takeWhile Text.isWhiteSpace).reverse,
        Text.isWhiteSpace c = true :=
      fun c hc => List.all_eq_true.mp List.all_takeWhile c (List.mem_reverse.mp hc)
    conv_rhs => rw [← hparts, List.foldl_append]
    rw [hspace.foldl_level_of_forall hblank]
  rw [Text.trim, hend, hspace.foldl_level_dropWhile]

/-- The text at a place. -/
def Span.slice (span : Span) (text : List Char) : List Char :=
  (text.drop span.start).take (span.stop - span.start)

/-- No parameter has a closing bracket without a partner. Only the last one can have an
    opening bracket without a partner, and only if the list is not closed. -/
structure Params.Matched (ps : Params) : Prop where
  closing : ∀ p ∈ ps.items, ¬ round.Unopened p.text
  opening : ∀ p ∈ ps.items, round.Unclosed p.text →
    ps.items.getLast? = some p ∧ ∃ list, ps.ending = .unclosed list

theorem Params.matched_of_items_nil {ps : Params} (h : ps.items = []) : ps.Matched := by
  constructor <;> rw [h] <;> exact nofun

theorem Param.text_of_ofPiece? {piece : Nat × List Char} {p : Param}
    (h : Param.ofPiece? piece = some p) : p.text = Text.trim piece.2 := by
  unfold Param.ofPiece? at h
  simp only at h
  split at h
  · cases h
  · cases h
    rfl

theorem Param.leaves_of_ofPiece? {piece : Nat × List Char} {p : Param} {n : Nat}
    (hp : Param.ofPiece? piece = some p) (h : round.Leaves n piece.2) :
    round.Leaves n p.text := by
  rw [Param.text_of_ofPiece? hp]
  exact (leaves_congr fun depth => Text.foldl_level_trim piece.2 depth).mpr h

/-- Parameters have as many open brackets as their list: none but the last has any. -/
theorem Param.leaves_of_mem_ofList {start n : Nat} {text : List Char} {p : Param}
    (h : round.Leaves n text) (hp : p ∈ Param.ofList start text) :
    round.Leaves 0 p.text ∨
      round.Leaves n p.text ∧ (Param.ofList start text).getLast? = some p := by
  rcases exists_leaves_pieces start [] .nil h with
    ⟨init, last, hpieces, hinit, hlast⟩
  have hitems : Param.ofList start text
      = init.filterMap Param.ofPiece? ++ (Param.ofPiece? last).toList := by
    rw [Param.ofList, hpieces, List.filterMap_append]
    cases hpiece : Param.ofPiece? last with
    | none => rw [List.filterMap_cons_none hpiece]; rfl
    | some q => rw [List.filterMap_cons_some hpiece]; rfl
  rw [hitems] at hp ⊢
  rcases List.mem_append.mp hp with hp | hp
  · rcases List.mem_filterMap.mp hp with ⟨piece, hpiece, hp⟩
    exact .inl (Param.leaves_of_ofPiece? hp (hinit piece hpiece))
  · have hp := Option.mem_toList.mp hp
    rw [hp]
    exact .inr ⟨Param.leaves_of_ofPiece? hp hlast, List.getLast?_concat⟩

namespace Cursor

/-- Parameters have their brackets in order. -/
theorem matched_readParams (c : Cursor) : c.readParams.1.Matched := by
  unfold readParams
  simp only
  split
  next rest heq =>
    rcases Enclosed.exists_leaves_read endsList rest with ⟨n, hleaves, hclosed⟩
    refine ⟨fun p hp => ?_, fun p hp hunclosed => ?_⟩
    · rcases Param.leaves_of_mem_ofList hleaves hp with h | ⟨h, -⟩ <;> exact h.not_unopened
    · rcases Param.leaves_of_mem_ofList hleaves hp with h | ⟨h, hlast⟩
      · exact absurd (h.unclosed_iff.mp hunclosed) (Nat.lt_irrefl 0)
      · -- Something is open at the end, so the list was not closed.
        have hpos := h.unclosed_iff.mp hunclosed
        refine ⟨hlast, _, if_neg fun hc => ?_⟩
        exact Nat.lt_irrefl 0 (hclosed hc ▸ hpos)
  next => exact Params.matched_of_items_nil rfl
  next => exact Params.matched_of_items_nil rfl
  next => exact Params.matched_of_items_nil rfl

/-- Parameters stand one behind the other. -/
theorem pairwise_readParams (c : Cursor) :
    c.readParams.1.items.Pairwise fun p q => p.span.stop < q.span.start := by
  unfold readParams
  simp only
  split
  next rest heq =>
    refine List.pairwise_filterMap.mpr ((pairwise_pieces _ _ _ _).imp ?_)
    intro a b hlt p hp q hq
    rw [(length_pos_of_ofPiece? hp).2, (length_pos_of_ofPiece? hq).2]
    exact hlt
  next => exact List.Pairwise.nil
  next => exact List.Pairwise.nil
  next => exact List.Pairwise.nil

/-- Each parameter is what stands at its place, without white space. -/
theorem occupies_of_mem_readParams {c : Cursor} {p : Param} (hp : p ∈ c.readParams.1.items) :
    ∃ text, p.text = Text.trim text ∧ p.span.stop = p.span.start + text.length ∧
      Block.Occupies c.pos c.rest ⟨p.span.start, text, true⟩ := by
  have hspacing := proceeds_skip isSpacing c
  unfold readParams at hp
  simp only at hp
  split at hp
  next rest heq =>
    rcases List.mem_filterMap.mp hp with ⟨piece, hpiece, hp⟩
    have hopen := hspacing.trans (proceeds_cons heq)
    have hread : (Enclosed.read .round endsList rest).inside ++ _ = rest :=
      Enclosed.readFrom_append .round endsList 0 [] rest
    rw [(length_pos_of_ofPiece? hp).2]
    refine ⟨piece.2, Param.text_of_ofPiece? hp, rfl, .of_proceeds hopen ?_⟩
    rcases occupies_of_mem_pieces hpiece with ⟨before, behind, htext, hstart⟩
    refine ⟨before, behind ++ (Enclosed.read .round endsList rest).tail .round, ?_, hstart⟩
    rw [← List.append_assoc, ← htext]
    exact hread.symm
  next => cases hp
  next => cases hp
  next => cases hp

theorem slice_of_mem_readParams {text : List Char} {pos : Nat} {p : Param}
    (hp : p ∈ (readParams ⟨pos, text.drop pos⟩).1.items) :
    p.text = Text.trim (p.span.slice text) := by
  rcases occupies_of_mem_readParams hp with ⟨part, htext, hstop, hoccupies⟩
  by_cases hpos : pos ≤ text.length
  · have hproceeds : Proceeds ⟨0, text⟩ ⟨pos, text.drop pos⟩ := by
      refine ⟨text.take pos, (List.take_append_drop pos text).symm, ?_⟩
      rw [List.length_take, Nat.min_eq_left hpos, Nat.zero_add]
    have hpart := (hoccupies.of_proceeds hproceeds).text_eq
    rw [htext, Span.slice, hstop, Nat.add_sub_cancel_left]
    exact congrArg Text.trim hpart
  · -- Behind the end of the text there are no parameters.
    rw [List.drop_eq_nil_of_le (by omega)] at hp
    cases hp

end Cursor

theorem Statement.matched_read (code : Code) (c : Cursor) :
    (Statement.read code c).1.params.Matched := by
  simp only [Statement.read]
  by_cases hparams : code.hasParams = true
  · rw [if_pos hparams]
    exact Cursor.matched_readParams _
  · rw [if_neg hparams]
    exact Params.matched_of_items_nil rfl

/-- The list of every statement has its brackets in order. -/
theorem matched_of_mem_statements {start : Nat} {text : List Char} {s : Statement}
    (h : .statement s ∈ statements start text) : s.params.Matched := by
  rcases Statement.exists_read_of_mem_statements h with ⟨code, c, -, rfl⟩
  exact Statement.matched_read code c

end TurtleGraphics
