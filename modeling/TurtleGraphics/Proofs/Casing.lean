import TurtleGraphics.Text.UpperCase

/-!
# What Upper Case Leaves Alone

Texts are put into upper case before they are read, and that can change a text in many
places: letters of all alphabets are replaced, and some become several. Here is what can
still be said about it. No letter between `a` and `z` is left, and no mark by which bodies
and comments end comes or goes.

Characters outside ASCII are replaced by way of a table of runs. None of the two statements
is true of the table by its form, so it is looked through: the codes of what a run becomes
lie together, and it suffices that they lie on one side of the codes in question
(`CaseRun.avoids`).

## Main definitions

* `Text.marks`: Braces and ends of lines.
* `Text.CaseRun.avoids`: No character of a run becomes one with a code in a range.

## Theorems

* `Text.toUpper_of_isLower_eq_false`: What is not in lower case stays as it is.
* `Text.toNat_of_mem_upperChar`: What characters outside ASCII do not become.
* `Text.mem_upperCase_iff`: Upper case leaves braces and ends of lines alone.
* `Text.isLower_of_mem_upperCase`: It leaves no letter in lower case.
-/

namespace TurtleGraphics

namespace Text

/-- A character that is not in lower case is its own upper case. -/
theorem toUpper_of_isLower_eq_false {c : Char} (h : c.isLower = false) : c.toUpper = c := by
  refine dif_neg fun hlower => ?_
  have htrue : c.isLower = true :=
    Bool.and_eq_true_iff.mpr ⟨decide_eq_true hlower.1, decide_eq_true hlower.2⟩
  rw [h] at htrue
  cases htrue

theorem range_of_isLower {c : Char} (h : c.isLower = true) : 0x61 ≤ c.toNat ∧ c.toNat ≤ 0x7A := by
  rcases Bool.and_eq_true_iff.mp h with ⟨hlo, hhi⟩
  exact ⟨of_decide_eq_true hlo, of_decide_eq_true hhi⟩

section Runs

variable {lo hi : Nat}

/-- No character of the run becomes one whose code is between `lo` and `hi`. -/
def CaseRun.avoids (lo hi : Nat) (r : CaseRun) : Bool :=
  (decide (hi < r.image) || decide (r.image + (r.last - r.first) < lo)) &&
    r.tail.all fun code => decide (code < lo) || decide (hi < code)

/-- A code that is out of range stands for the character with code zero. -/
theorem toNat_ofNat (code : Nat) :
    (Char.ofNat code).toNat = code ∨ (Char.ofNat code).toNat = 0 := by
  by_cases hvalid : code.isValidChar
  · rw [Char.ofNat, dif_pos hvalid]
    exact .inl rfl
  · rw [Char.ofNat, dif_neg hvalid]
    exact .inr rfl

theorem CaseRun.toNat_of_mem_upper (hlo : 0 < lo) {r : CaseRun} (h : r.avoids lo hi = true)
    {code : Nat} (hcode : r.holds code = true) {c : Char} (hc : c ∈ r.upper code) :
    c.toNat < lo ∨ hi < c.toNat := by
  simp only [avoids, Bool.and_eq_true, Bool.or_eq_true, decide_eq_true_eq, List.all_eq_true] at h
  simp only [holds, Bool.and_eq_true, decide_eq_true_eq] at hcode
  rw [upper, List.mem_cons, List.mem_map] at hc
  rcases hc with rfl | ⟨other, hother, rfl⟩
  · have himage := toNat_ofNat (r.image + (code - r.first))
    omega
  · have htail := h.2 other hother
    have hchar := toNat_ofNat other
    omega

/-- A character outside ASCII has no character with a code between `lo` and `hi` in its upper
    case if no run has one. -/
theorem toNat_of_mem_upperChar (hlo : 0 < lo) (hhi : hi < 128)
    (hruns : upperRuns.all (CaseRun.avoids lo hi) = true) {c d : Char} (hc : ¬c.toNat < 128)
    (h : d ∈ upperChar c) : d.toNat < lo ∨ hi < d.toNat := by
  rw [upperChar, if_neg hc] at h
  split at h
  next r hfind =>
    have hr := List.all_eq_true.mp hruns r (List.mem_of_find?_eq_some hfind)
    have hholds : r.holds c.toNat = true :=
      List.find?_some (p := (CaseRun.holds · c.toNat)) hfind
    exact CaseRun.toNat_of_mem_upper hlo hr hholds h
  next =>
    rw [List.mem_singleton.mp h]
    omega

end Runs

/-- The characters by which bodies and comments end. -/
def marks : List Char := ['\n', '\x7b', '\x7d']

/-- A character has a mark in its upper case only if it is that mark. -/
theorem not_mem_upperChar {c mark : Char} (hmark : mark ∈ marks) (hne : c ≠ mark) :
    mark ∉ upperChar c := by
  intro hmem
  by_cases hascii : c.toNat < 128
  · -- ASCII has no table, and is looked through code by code.
    have hall : (List.range 128).all (fun code => marks.all fun mark =>
        Char.ofNat code == mark || (Char.ofNat code).toUpper != mark) = true := by
      decide +kernel
    have hcode := List.all_eq_true.mp hall c.toNat (List.mem_range.mpr hascii)
    have hupper := List.all_eq_true.mp hcode mark hmark
    rw [Char.ofNat_toNat, Bool.or_eq_true, beq_iff_eq, bne_iff_ne] at hupper
    rw [upperChar, if_pos hascii, List.mem_singleton] at hmem
    exact hupper.resolve_left hne hmem.symm
  · have hall : (marks.all fun mark => decide (0 < mark.toNat ∧ mark.toNat < 128) &&
        upperRuns.all (CaseRun.avoids mark.toNat mark.toNat)) = true := by decide +kernel
    have hruns := List.all_eq_true.mp hall mark hmark
    rw [Bool.and_eq_true, decide_eq_true_eq] at hruns
    have hcode := toNat_of_mem_upperChar hruns.1.1 hruns.1.2 hruns.2 hascii hmem
    omega

/-- Nor does any other character become a mark when it is taken by itself. -/
theorem toUpper_ne_of_mem_marks {c mark : Char} (hmark : mark ∈ marks) (hne : c ≠ mark) :
    c.toUpper ≠ mark := by
  cases hlower : c.isLower with
  | false =>
      rw [toUpper_of_isLower_eq_false hlower]
      exact hne
  | true =>
      have hascii : c.toNat < 128 := Nat.lt_of_le_of_lt (range_of_isLower hlower).2 (by decide)
      have hmem := not_mem_upperChar hmark hne
      rw [upperChar, if_pos hascii, List.mem_singleton] at hmem
      exact Ne.symm hmem

theorem upperChar_of_mem_marks {mark : Char} (h : mark ∈ marks) : upperChar mark = [mark] := by
  have hall : (marks.all fun mark => upperChar mark == [mark]) = true := by decide
  exact beq_iff_eq.mp (List.all_eq_true.mp hall mark h)

/-- Upper case neither adds nor takes away braces and ends of lines. -/
theorem mem_upperCase_iff {mark : Char} (hmark : mark ∈ marks) (text : List Char) :
    mark ∈ upperCase text ↔ mark ∈ text := by
  rw [upperCase, List.mem_flatMap]
  constructor
  · rintro ⟨c, hc, hmem⟩
    by_cases hne : c = mark
    · rw [← hne]
      exact hc
    · exact absurd hmem (not_mem_upperChar hmark hne)
  · intro hmem
    exact ⟨mark, hmem, by rw [upperChar_of_mem_marks hmark]; exact List.mem_singleton_self mark⟩

/-- No letter between `a` and `z` is left in upper case. -/
theorem isLower_of_mem_upperCase {text : List Char} {c : Char} (h : c ∈ upperCase text) :
    c.isLower = false := by
  rcases List.mem_flatMap.mp h with ⟨d, -, hc⟩
  by_cases hascii : d.toNat < 128
  · have hall : (List.range 128).all (fun code => !(Char.ofNat code).toUpper.isLower) = true := by
      decide +kernel
    have hcode := List.all_eq_true.mp hall d.toNat (List.mem_range.mpr hascii)
    rw [Char.ofNat_toNat, Bool.not_eq_true'] at hcode
    rw [upperChar, if_pos hascii, List.mem_singleton] at hc
    rw [hc]
    exact hcode
  · have hruns : upperRuns.all (CaseRun.avoids 0x61 0x7A) = true := by decide +kernel
    have hcode := toNat_of_mem_upperChar (by decide) (by decide) hruns hascii hc
    refine Bool.eq_false_iff.mpr fun hlower => ?_
    have hrange := range_of_isLower hlower
    omega

end Text

end TurtleGraphics
