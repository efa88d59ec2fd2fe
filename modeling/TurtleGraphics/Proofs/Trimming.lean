import Mathlib.Data.List.DropRight
import TurtleGraphics.Proofs.Legibility
import TurtleGraphics.Proofs.Positional

/-!
# One Text for Each Coordinate

A coordinate is first written with a fixed number of places. Then the zeros at its end are
dropped, and the point if nothing is left behind it, and the sign if only a zero is left.
The number stays what it was, and there is one text for it: two coordinates are written
alike just if they are rounded to the same number, be it to different numbers of places.

The three steps work on characters and know nothing of numbers. Dropping zeros at the end
of a text would eat those of a whole number, and is safe because it is done only where
there is a point: the point stops it. Dropping points stops at the digit before it.
`trim_pointed` says so for all texts with one point. After that the steps are one operation
on numerals, `Numeral.trimmed`, which keeps the number and gives a reduced numeral; and
reduced numerals are known by their numbers.

## Main definitions

* `Numeral.trimmed`: A numeral without superfluous zeros and without a superfluous sign.
* `HasPlaces`: The texts with a fixed number of places.
* `Tidy`: The texts without superfluous points, zeros and signs.

## Theorems

* `dropTrailing_append`: Where dropping characters at the end stops.
* `trimZeros_chars`: Trimming a text is trimming its numeral.
* `Numeral.value_trimmed`, `Numeral.reduced_trimmed`: What trimming keeps and establishes.
* `Numeral.trimmed_chars_eq_iff`: Trimmed texts are equal just if the numbers are.
* `coordinates_canonical`: A coordinate keeps its number and has one text.
-/

namespace TurtleGraphics

/-! ## Characters at the end of a text -/

theorem dropTrailing_eq_rdropWhile (c : Char) (s : List Char) :
    dropTrailing c s = s.rdropWhile (· == c) :=
  rfl

theorem dropTrailing_of_getLast? {c : Char} {s : List Char} (h : s.getLast? ≠ some c) :
    dropTrailing c s = s := by
  refine List.rdropWhile_eq_self_iff.mpr fun hne heq => h ?_
  rw [List.getLast?_eq_some_getLast hne, beq_iff_eq.mp heq]

/-- Dropping characters at the end stops at the latest where another character stands. -/
theorem dropTrailing_append {c : Char} {s : List Char} (h : s.getLast? ≠ some c)
    (t : List Char) : dropTrailing c (s ++ t) = s ++ dropTrailing c t := by
  induction t using List.reverseRecOn with
  | nil =>
      rw [List.append_nil, dropTrailing_of_getLast? h]
      exact (List.append_nil s).symm
  | append_singleton t d ih =>
      simp only [dropTrailing_eq_rdropWhile] at ih ⊢
      rw [← List.append_assoc, List.rdropWhile_concat, List.rdropWhile_concat, ih]
      split
      · rfl
      · exact List.append_assoc s t [d]

theorem getLast?_dropTrailing (c : Char) (s : List Char) :
    (dropTrailing c s).getLast? ≠ some c := by
  intro h
  have hne : dropTrailing c s ≠ [] := by
    intro hnil
    rw [hnil] at h
    cases h
  have hlast := List.rdropWhile_last_not (· == c) s hne
  rw [List.getLast?_eq_some_getLast hne, Option.some.injEq] at h
  exact hlast (beq_iff_eq.mpr h)

theorem exists_eq_dropTrailing (c : Char) (s : List Char) :
    ∃ k, s = dropTrailing c s ++ List.replicate k c := by
  have hall : ∀ d ∈ s.rtakeWhile (· == c), d = c := fun d hd =>
    beq_iff_eq.mp (List.mem_rtakeWhile_imp (p := (· == c)) hd)
  refine ⟨(s.rtakeWhile (· == c)).length, ?_⟩
  rw [← List.eq_replicate_of_mem hall]
  exact List.rdropWhile_append_rtakeWhile.symm

/-- Zeros behind the point go, and the point goes with the last of them. -/
theorem trim_pointed {front fraction : List Char} (hfront : '.' ∉ front)
    (hfraction : '.' ∉ fraction) :
    (if (front ++ pointed fraction).contains '.' then
        dropTrailing '.' (dropTrailing '0' (front ++ pointed fraction))
      else front ++ pointed fraction)
      = front ++ pointed (dropTrailing '0' fraction) := by
  cases fraction with
  | nil =>
      have hnone : ¬(front ++ pointed []).contains '.' = true := by
        simpa [pointed] using hfront
      rw [if_neg hnone]
      rfl
  | cons c rest =>
      have hsome : (front ++ pointed (c :: rest)).contains '.' = true := by simp [pointed]
      -- The point stops the zeros.
      have hzeros : dropTrailing '0' (front ++ pointed (c :: rest))
          = front ++ '.' :: dropTrailing '0' (c :: rest) := by
        have hpoint : (front ++ ['.']).getLast? ≠ some '0' := by simp
        rw [pointed, List.append_cons, dropTrailing_append hpoint, ← List.append_cons]
      rw [if_pos hsome, hzeros]
      -- Whether the point goes as well depends on whether a digit is left behind it.
      cases hleft : dropTrailing '0' (c :: rest) with
      | nil =>
          have hlast : front.getLast? ≠ some '.' :=
            fun h => hfront (List.mem_of_getLast? h)
          rw [dropTrailing_append hlast]
          rfl
      | cons d digits =>
          refine dropTrailing_of_getLast? fun h => hfraction ?_
          rw [List.getLast?_append_cons, List.getLast?_cons_cons, ← hleft] at h
          exact dropTrailing_subset '0' _ (List.mem_of_getLast? h)

/-! ## Trimming numerals -/

namespace Numeral

/-- A numeral without the zeros at the end of its fraction. -/
def withoutZeros (n : Numeral) : Numeral :=
  { n with
    fraction := dropTrailing '0' n.fraction
    fraction_isDigit := fun c hc => n.fraction_isDigit c (dropTrailing_subset '0' _ hc) }

/-- A numeral without the zeros at the end of its fraction, and without its sign if a zero
    is all that is left. -/
def trimmed (n : Numeral) : Numeral :=
  { n.withoutZeros with negative := n.negative && !decide n.withoutZeros.IsZero }

theorem chars_eq_minus_zero_iff (n : Numeral) :
    n.chars = ['-', '0'] ↔ n.negative = true ∧ n.IsZero := by
  obtain ⟨c, rest, hwhole, hsign⟩ := n.exists_whole_eq
  rw [chars, IsZero, hwhole]
  cases n.negative <;> cases n.fraction <;> simp [Scalar.signText, pointed, hsign]

theorem trimmed_of_not {n : Numeral} (h : ¬(n.negative = true ∧ n.withoutZeros.IsZero)) :
    n.trimmed = n.withoutZeros := by
  ext1
  · change (n.negative && !decide n.withoutZeros.IsZero) = n.negative
    cases hn : n.negative with
    | false => rfl
    | true => simpa using fun hzero => h ⟨hn, hzero⟩
  · rfl
  · rfl

end Numeral

/-- Trimming a text is trimming its numeral. -/
theorem trimZeros_chars (n : Numeral) : trimZeros n.chars = n.trimmed.chars := by
  have hzeros := trim_pointed n.point_not_mem_front
    (point_not_mem_of_isDigit n.fraction_isDigit)
  change _ = n.withoutZeros.chars at hzeros
  -- The text without zeros is compared with a zero that has a sign, as its numeral is.
  rw [trimZeros, Numeral.chars, hzeros]
  by_cases h : n.negative = true ∧ n.withoutZeros.IsZero
  · have hunsigned : n.trimmed.negative = false := by simp [Numeral.trimmed, h.2]
    rw [if_pos ((Numeral.chars_eq_minus_zero_iff _).mpr h), Numeral.chars, hunsigned,
      show n.trimmed.whole = ['0'] from h.2.1, show n.trimmed.fraction = [] from h.2.2]
    rfl
  · rw [if_neg (mt (Numeral.chars_eq_minus_zero_iff _).mp h), Numeral.trimmed_of_not h]

namespace Numeral

theorem value_withoutZeros (n : Numeral) : n.withoutZeros.decimal.value = n.decimal.value := by
  obtain ⟨k, hk⟩ := exists_eq_dropTrailing '0' n.fraction
  have hworth : fractionValue (dropTrailing '0' n.fraction) = fractionValue n.fraction := by
    rw [← fractionValue_append_zeros _ k, ← hk]
  rw [value_decimal, value_decimal, ← hworth]
  rfl

/-- Trimming keeps the number. A sign is dropped only where it does not matter. -/
theorem value_trimmed (n : Numeral) : n.trimmed.value = n.value := by
  have hdecimal : n.trimmed.decimal.value = n.decimal.value := value_withoutZeros n
  by_cases h : n.negative = true ∧ n.withoutZeros.IsZero
  · have hzero : n.decimal.value = 0 := by rw [← value_withoutZeros, h.2.value_eq_zero]
    rw [value, value, hdecimal, hzero, signed, signed]
    simp
  · rw [value, hdecimal, trimmed_of_not h]
    rfl

theorem reduced_trimmed (n : Numeral) : n.trimmed.Reduced where
  trailing := getLast?_dropTrailing '0' n.fraction
  unsigned hn hzero := by
    have hzero' : n.withoutZeros.IsZero := hzero
    simp [trimmed, hzero'] at hn

/-- Trimmed texts are equal just if the numbers are. -/
theorem trimmed_chars_eq_iff (m n : Numeral) :
    m.trimmed.chars = n.trimmed.chars ↔ m.value = n.value := by
  constructor
  · intro h
    have hdenoted : some m.trimmed.value = some n.trimmed.value := by
      rw [← rational?_chars, ← rational?_chars, h]
    rw [← m.value_trimmed, ← n.value_trimmed, Option.some.inj hdenoted]
  · intro h
    have hvalue : m.trimmed.value = n.trimmed.value := by
      rw [m.value_trimmed, n.value_trimmed, h]
    rw [m.reduced_trimmed.eq_of_value_eq n.reduced_trimmed hvalue]

end Numeral

/-! ## Texts of coordinates -/

/-- The text of a numeral with so many digits behind its point. -/
def HasPlaces (places : Nat) (s : List Char) : Prop :=
  ∃ n : Numeral, n.chars = s ∧ n.fraction.length = places

/-- Nothing about a text is superfluous: a digit follows a point, no zero ends what follows
    it, and there is no zero with a sign. -/
structure Tidy (t : List Char) : Prop where
  digit_after_point : ∀ before after, t = before ++ '.' :: after →
    ∃ d ∈ after.head?, d.isDigit = true
  no_trailing_zero : ∀ before after, t = before ++ '.' :: after → after.getLast? ≠ some '0'
  no_signed_zero : t ≠ ['-', '0']

namespace Numeral

/-- There is one point in a numeral at most, and the fraction is behind it. -/
theorem fraction_of_chars_eq {n : Numeral} {before after : List Char}
    (h : n.chars = before ++ '.' :: after) : n.fraction = after ∧ after ≠ [] := by
  rw [chars] at h
  cases hfraction : n.fraction with
  | nil =>
      rw [hfraction, pointed, List.append_nil] at h
      exact absurd (h ▸ List.mem_append_cons_self) n.point_not_mem_front
  | cons c rest =>
      have hnot := point_not_mem_of_isDigit n.fraction_isDigit
      rw [hfraction] at h hnot
      obtain ⟨-, -, rfl⟩ := (List.append_cons_inj_of_notMem n.point_not_mem_front hnot).mp h
      exact ⟨rfl, List.cons_ne_nil c rest⟩

theorem Reduced.tidy {n : Numeral} (h : n.Reduced) : Tidy n.chars where
  digit_after_point before after heq := by
    obtain ⟨rfl, hne⟩ := fraction_of_chars_eq heq
    obtain ⟨d, rest, hfraction⟩ := List.exists_cons_of_ne_nil hne
    refine ⟨d, by rw [hfraction]; rfl, n.fraction_isDigit d ?_⟩
    rw [hfraction]
    exact List.mem_cons_self
  no_trailing_zero before after heq := by
    obtain ⟨rfl, -⟩ := fraction_of_chars_eq heq
    exact h.trailing
  no_signed_zero heq := by
    obtain ⟨hn, hzero⟩ := n.chars_eq_minus_zero_iff.mp heq
    exact h.unsigned hn hzero

end Numeral

/-- What is written for a coordinate is exact and unique. A finite scalar has a text with so
    many places, which denotes the decimal that the scalar is rounded to. Trimming a text
    with so many places keeps what it denotes and leaves nothing superfluous. Two such texts
    become the same just if they denote the same number, however many places they have. -/
theorem coordinates_canonical :
    (∀ (places : Nat) (v : Scalar) (negative : Bool) (m s : Nat),
      v.parts = .finite negative m s →
        HasPlaces places (v.fixedChars places) ∧
        rational? (v.fixedChars places) = some (signed negative (Decimal.fixed places m s).value) ∧
        (Svg.coordinate places v).toList = trimZeros (v.fixedChars places)) ∧
    (∀ (places : Nat) (s : List Char), HasPlaces places s →
      (∃ q, rational? s = some q ∧ rational? (trimZeros s) = some q) ∧ Tidy (trimZeros s)) ∧
    ∀ (places : Nat) (s : List Char) (places' : Nat) (s' : List Char),
      HasPlaces places s → HasPlaces places' s' →
        (trimZeros s = trimZeros s' ↔ rational? s = rational? s') := by
  refine ⟨fun places v negative m s h => ?_, ?_, ?_⟩
  · obtain ⟨n, hchars, hplaces, hvalue⟩ := Scalar.exists_fixedChars h places
    refine ⟨⟨n, hchars, hplaces⟩, ?_, String.toList_ofList⟩
    rw [← hchars, rational?_chars, hvalue]
  · rintro places _ ⟨n, rfl, -⟩
    rw [trimZeros_chars]
    refine ⟨⟨n.value, rational?_chars n, ?_⟩, n.reduced_trimmed.tidy⟩
    rw [rational?_chars, n.value_trimmed]
  · rintro places _ places' _ ⟨m, rfl, -⟩ ⟨n, rfl, -⟩
    rw [trimZeros_chars, trimZeros_chars, Numeral.trimmed_chars_eq_iff, rational?_chars,
      rational?_chars, Option.some.injEq]

/-- A negative number that is rounded to zero is written like the zero that has no places. -/
theorem coordinates_canonical_zero :
    let v : Scalar := -0.001
    let s := "-0.00".toList
    v.parts = .finite true 4611686018427388 1012 ∧ v.fixedChars 2 = s ∧
      HasPlaces 2 s ∧ HasPlaces 0 ['0'] ∧
      rational? s = some 0 ∧ rational? (trimZeros s) = some 0 ∧ Tidy (trimZeros s) ∧
      trimZeros s = trimZeros ['0'] ∧ (Svg.coordinate 2 v).toList = ['0'] := by
  intro v s
  have hparts : v.parts = .finite true 4611686018427388 1012 := by decide +kernel
  have hfixed : v.fixedChars 2 = s := by decide +kernel
  have hrounded : Decimal.fixed 2 4611686018427388 1012 = ⟨0, -2⟩ := by decide +kernel
  have hzero : HasPlaces 0 ['0'] := ⟨Numeral.zero, rfl, rfl⟩
  have hnone : rational? ['0'] = some 0 := by decide +kernel
  obtain ⟨htext, htrim, hunique⟩ := coordinates_canonical
  obtain ⟨hplaces, hdenoted, hcoordinate⟩ := htext 2 v true _ _ hparts
  rw [hfixed] at hplaces hdenoted hcoordinate
  have hs : rational? s = some 0 := by
    rw [hdenoted, hrounded]
    simp [Decimal.value, signed]
  obtain ⟨⟨q, hq, hq'⟩, htidy⟩ := htrim 2 s hplaces
  obtain rfl : q = 0 := Option.some.inj (hq.symm.trans hs)
  have hsame : trimZeros s = trimZeros ['0'] :=
    (hunique 2 s 0 ['0'] hplaces hzero).mpr (hs.trans hnone.symm)
  exact ⟨hparts, hfixed, hplaces, hzero, hs, hq', htidy, hsame, hcoordinate.trans hsame⟩

end TurtleGraphics
