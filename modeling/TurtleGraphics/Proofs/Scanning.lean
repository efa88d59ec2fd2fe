import TurtleGraphics.Proofs.Conservation
import TurtleGraphics.Proofs.Lexing

/-!
# Texts Cut in Two

A character that belongs neither to numbers nor to names ends the token before it. Where
such a character stands, a text can be cut: its tokens are those of the part before the
character and then those of the rest (`scan_append`). Blanks and brackets are such
characters.

Brackets are tokens of their own as well. So it does not matter whether brackets are
counted in a text, among its tokens (`foldl_level_scan`) or among the tokens in context
(`Token.foldl_level_inContextAfter`), since context neither makes nor takes a bracket.

## Main definitions

* `Scanned.append`: What is found in one text after another.
* `Separator`: The characters at which a text can be cut.

## Theorems

* `scan_append`: A text is scanned in two parts.
* `foldl_level_scan`: Brackets of a text are the brackets among its tokens.
* `Rewritten.foldl_level`, `Rewritten.any_isVariable`, `Rewritten.variable_mem`: What context
  does not change.
-/

namespace TurtleGraphics

/-- What is found in one text and then in another. -/
def Scanned.append (s more : Scanned) : Scanned :=
  ⟨s.tokens ++ more.tokens, s.faults ++ more.faults⟩

/-- The character is no part of a number and no part of a name. -/
def Separator (c : Char) : Prop := isNumberChar c = false ∧ isNameChar c = false

theorem separator_blank : Separator ' ' := ⟨rfl, rfl⟩

theorem separator_closing : Separator ')' := ⟨rfl, rfl⟩

section

variable {p : Char → Bool} {c : Char}

theorem takeWhile_append_cons (h : p c = false) (a b : List Char) :
    (a ++ c :: b).takeWhile p = a.takeWhile p := by
  induction a with
  | nil => exact List.takeWhile_cons_of_neg (by rw [h]; exact Bool.false_ne_true)
  | cons d a ih =>
      by_cases hd : p d = true
      · rw [List.cons_append, List.takeWhile_cons_of_pos hd, List.takeWhile_cons_of_pos hd, ih]
      · rw [List.cons_append, List.takeWhile_cons_of_neg hd, List.takeWhile_cons_of_neg hd]

theorem dropWhile_append_cons (h : p c = false) (a b : List Char) :
    (a ++ c :: b).dropWhile p = a.dropWhile p ++ c :: b := by
  induction a with
  | nil => exact List.dropWhile_cons_of_neg (by rw [h]; exact Bool.false_ne_true)
  | cons d a ih =>
      by_cases hd : p d = true
      · rw [List.cons_append, List.dropWhile_cons_of_pos hd, List.dropWhile_cons_of_pos hd, ih]
      · rw [List.cons_append, List.dropWhile_cons_of_neg hd, List.dropWhile_cons_of_neg hd,
          List.cons_append]

end

/-- A text is scanned in two parts, the second of which begins with a separator. -/
theorem scan_append {c : Char} (h : Separator c) (a b : List Char) :
    scan (a ++ c :: b) = (scan a).append (scan (c :: b)) := by
  fun_induction scan a with
  | case1 => rfl
  | case2 d rest hblank ih =>
      rw [List.cons_append, scan, if_pos hblank, ih]
  | case3 d rest hblank hnumber hle ih =>
      -- The run of digits ends before the separator at the latest.
      rw [List.cons_append, scan, if_neg hblank, if_pos hnumber, takeWhile_append_cons h.1,
        dropWhile_append_cons h.1, ih]
      rfl
  | case4 d rest hblank hnumber op hop ih =>
      rw [List.cons_append, scan, if_neg hblank, if_neg hnumber, hop, ih]
      rfl
  | case5 rest hblank hnumber hop ih =>
      rw [List.cons_append, scan, if_neg hblank, if_neg hnumber, hop, ih]
      rfl
  | case6 rest hblank hnumber hop hopen ih =>
      rw [List.cons_append, scan, if_neg hblank, if_neg hnumber, hop, ih]
      rfl
  | case7 rest hle name after hempty hblank hnumber hop hopen hclose ih =>
      rw [List.cons_append, scan, if_neg hblank, if_neg hnumber, hop]
      simp only [if_neg hopen, if_neg hclose, if_true, takeWhile_append_cons h.2,
        dropWhile_append_cons h.2, ih]
      rw [if_pos hempty]
      rfl
  | case8 rest hle name after hempty hblank hnumber hop hopen hclose ih =>
      rw [List.cons_append, scan, if_neg hblank, if_neg hnumber, hop]
      simp only [if_neg hopen, if_neg hclose, if_true, takeWhile_append_cons h.2,
        dropWhile_append_cons h.2, ih]
      rw [if_neg hempty]
      rfl
  | case9 d rest hblank hnumber hop hopen hclose hdollar ih =>
      rw [List.cons_append, scan, if_neg hblank, if_neg hnumber, hop]
      simp only [if_neg hopen, if_neg hclose, if_neg hdollar, ih]
      rfl

theorem scan_blank (text : List Char) : scan (' ' :: text) = scan text := by
  rw [scan]
  rfl

theorem scan_opening (text : List Char) :
    scan ('(' :: text) = (scan text).withToken .opening := by
  rw [scan]
  rfl

theorem scan_closing (text : List Char) :
    scan (')' :: text) = (scan text).withToken .closing := by
  rw [scan]
  rfl

/-- Round brackets are not among the characters of the class. -/
def Bracketless (p : Char → Bool) : Prop := p '(' = false ∧ p ')' = false

theorem Bracketless.level {p : Char → Bool} (h : Bracketless p) {c : Char} (hc : p c = true)
    (depth : Nat) : Brackets.round.level depth c = depth := by
  refine Brackets.level_other ?_ ?_ depth
  · rintro rfl
    exact Bool.false_ne_true (h.1.symm.trans hc)
  · rintro rfl
    exact Bool.false_ne_true (h.2.symm.trans hc)

/-- Characters of the class can be left out before the brackets are counted. -/
theorem Bracketless.foldl_level_dropWhile {p : Char → Bool} (h : Bracketless p)
    (text : List Char) (depth : Nat) :
    (text.dropWhile p).foldl Brackets.round.level depth
      = text.foldl Brackets.round.level depth := by
  induction text with
  | nil => rfl
  | cons c text ih =>
      by_cases hc : p c = true
      · rw [List.dropWhile_cons_of_pos hc, List.foldl_cons, h.level hc, ih]
      · rw [List.dropWhile_cons_of_neg hc]

/-- The brackets of a text are those among its tokens. -/
theorem foldl_level_scan (text : List Char) (depth : Nat) :
    (scan text).tokens.foldl Token.brackets.level depth
      = text.foldl Brackets.round.level depth := by
  -- Whatever is not read as a bracket belongs to a class of characters without brackets.
  have hblanks : Bracketless isBlank := ⟨rfl, rfl⟩
  have hnumbers : Bracketless isNumberChar := ⟨rfl, rfl⟩
  have hsymbols : Bracketless (fun c => (Operator.ofSymbol? c).isSome) := ⟨rfl, rfl⟩
  have hnames : Bracketless isNameChar := ⟨rfl, rfl⟩
  fun_induction scan text generalizing depth with
  | case1 => rfl
  | case2 c rest hblank ih => rw [List.foldl_cons, hblanks.level hblank, ih]
  | case3 c rest hblank hnumber hle ih =>
      rw [List.foldl_cons, hnumbers.level hnumber, ← hnumbers.foldl_level_dropWhile]
      exact ih depth
  | case4 c rest hblank hnumber op hop ih =>
      rw [List.foldl_cons, hsymbols.level (Option.isSome_of_eq_some hop)]
      exact ih depth
  | case5 rest hblank hnumber hop ih => exact ih (depth + 1)
  | case6 rest hblank hnumber hop hopen ih => exact ih (depth - 1)
  | case7 rest hle name after hempty hblank hnumber hop hopen hclose ih =>
      rw [List.foldl_cons, ← hnames.foldl_level_dropWhile]
      exact ih depth
  | case8 rest hle name after hempty hblank hnumber hop hopen hclose ih =>
      rw [List.foldl_cons, ← hnames.foldl_level_dropWhile]
      exact ih depth
  | case9 c rest hblank hnumber hop hopen hclose hdollar ih =>
      rw [List.foldl_cons, Brackets.level_other hopen hclose]
      exact ih depth

/-- Context neither makes nor takes a bracket. -/
theorem Rewritten.foldl_level {raw tokens : List Token} (h : Rewritten raw tokens)
    (depth : Nat) :
    tokens.foldl Token.brackets.level depth = raw.foldl Token.brackets.level depth := by
  induction h generalizing depth with
  | nil => rfl
  | kept t h ih => exact ih _
  | comparison hop h ih => exact ih _
  | plus h ih => exact ih _
  | minus h ih => exact ih _
  | times h ih => exact ih _

/-- Context neither makes nor takes a variable. -/
theorem Rewritten.any_isVariable {raw tokens : List Token} (h : Rewritten raw tokens) :
    tokens.any Token.isVariable = raw.any Token.isVariable := by
  induction h with
  | nil => rfl
  | kept t h ih => rw [List.any_cons, List.any_cons, ih]
  | comparison hop h ih => exact ih
  | plus h ih => exact ih
  | minus h ih => exact ih
  | times h ih => exact ih

/-- Context makes no variables. -/
theorem Rewritten.variable_mem {raw tokens : List Token} (h : Rewritten raw tokens) {name : String}
    (hmem : .variable name ∈ tokens) : .variable name ∈ raw := by
  induction h with
  | nil => cases hmem
  | kept t h ih => exact List.mem_cons.mpr ((List.mem_cons.mp hmem).imp_right ih)
  | comparison hop h ih =>
      rcases List.mem_cons.mp hmem with hmem | hmem
      · cases hmem
      · exact List.mem_cons_of_mem _ (List.mem_cons_of_mem _ (ih hmem))
  | plus h ih | minus h ih =>
      rcases List.mem_cons.mp hmem with hmem | hmem
      · cases hmem
      · exact List.mem_cons_of_mem _ (ih hmem)
  | times h ih =>
      rcases List.mem_cons.mp hmem with hmem | hmem
      · cases hmem
      · exact ih hmem

end TurtleGraphics
