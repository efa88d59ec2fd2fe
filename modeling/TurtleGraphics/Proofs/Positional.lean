import Mathlib.Tactic.Linarith
import Mathlib.Tactic.NormNum
import Mathlib.Tactic.Positivity
import TurtleGraphics.Decimal.Fixed
import TurtleGraphics.Proofs.Numerals

/-!
# Positional Numerals

A decimal text has a sign or none, digits before a point, and digits behind it. `Numeral`
is such a text by its parts, without a superfluous zero in front; the point is there just
if a digit follows it. Every finite scalar that is written with a fixed number of places is
written as a numeral.

Many numerals have the same number: zeros can stand at the end of the fraction, and zero
can have a sign. A numeral is `Reduced` if neither is the case, and then its number
determines it. The sign is the sign of the number, the digits before the point are what is
left by rounding down, and the rest is the fraction. From there on it is about digits. As
many digits with the same value are the same digits; and where there are not as many, zeros
make up for it, behind the digits of a fraction and in front of those of a whole number.
These are just the places where the longer ones must not have a zero.

What a text denotes is read from its characters by `rational?`, without regard to how it
came about.

## Main definitions

* `fractionValue`: What digits behind the point are worth.
* `rational?`: The number that a decimal text denotes.
* `Numeral`: A decimal numeral by its sign and its digits.
* `Numeral.chars`, `Numeral.value`: The text and the number of a numeral.
* `Numeral.Reduced`: Neither zeros at the end nor the sign of a numeral are superfluous.

## Theorems

* `eq_of_digitsValue_eq`: As many digits with the same value are the same.
* `toDigits_leading`: The digits of a natural number have no superfluous zero in front.
* `rational?_chars`: The text of a numeral denotes its number.
* `Numeral.Reduced.eq_of_value_eq`: Reduced numerals with the same number are the same.
* `Scalar.exists_fixedChars`: A finite scalar with so many places is written as a numeral.
-/

namespace TurtleGraphics

/-! ## Values of digits -/

theorem digitValue_lt {c : Char} (h : c.isDigit = true) : digitValue c < 10 := by
  have hrange : 48 ≤ c.toNat ∧ c.toNat ≤ 57 := Char.isDigit_iff_toNat.mp h
  change c.toNat - 48 < 10
  omega

theorem eq_of_digitValue_eq {c d : Char} (hc : c.isDigit = true) (hd : d.isDigit = true)
    (h : digitValue c = digitValue d) : c = d := by
  have hcrange : 48 ≤ c.toNat ∧ c.toNat ≤ 57 := Char.isDigit_iff_toNat.mp hc
  have hdrange : 48 ≤ d.toNat ∧ d.toNat ≤ 57 := Char.isDigit_iff_toNat.mp hd
  have hsub : c.toNat - 48 = d.toNat - 48 := h
  exact Char.toNat_inj.mp (by omega)

theorem digitsValue_lt {digits : List Char} (h : ∀ c ∈ digits, c.isDigit = true) :
    digitsValue digits < 10 ^ digits.length := by
  induction digits using List.reverseRecOn with
  | nil => decide
  | append_singleton digits c ih =>
      rw [List.forall_mem_append] at h
      have hrest := ih h.1
      have hlast := digitValue_lt (h.2 c List.mem_cons_self)
      rw [digitsValue_concat, List.length_append, List.length_singleton, Nat.pow_succ]
      omega

/-- As many digits with the same value are the same. The last digits are the remainders. -/
theorem eq_of_digitsValue_eq {a b : List Char} (ha : ∀ c ∈ a, c.isDigit = true)
    (hb : ∀ c ∈ b, c.isDigit = true) (hlength : a.length = b.length)
    (h : digitsValue a = digitsValue b) : a = b := by
  induction a using List.reverseRecOn generalizing b with
  | nil => exact (List.length_eq_zero_iff.mp hlength.symm).symm
  | append_singleton a c ih =>
      cases b using List.reverseRecOn with
      | nil => simp at hlength
      | append_singleton b d =>
          rw [List.forall_mem_append] at ha hb
          have hc := ha.2 c List.mem_cons_self
          have hd := hb.2 d List.mem_cons_self
          have hclt := digitValue_lt hc
          have hdlt := digitValue_lt hd
          rw [digitsValue_concat, digitsValue_concat] at h
          have hlast : c = d := eq_of_digitValue_eq hc hd (by omega)
          have hrest : a = b := ih ha.1 hb.1 (by simpa using hlength) (by omega)
          rw [hrest, hlast]

theorem isDigit_replicate_zero {n : Nat} {c : Char} (h : c ∈ List.replicate n '0') :
    c.isDigit = true := by
  rw [List.eq_of_mem_replicate h]
  decide

theorem digitsValue_replicate_zero (n : Nat) : digitsValue (List.replicate n '0') = 0 := by
  induction n with
  | zero => rfl
  | succ n ih =>
      rw [List.replicate_succ', digitsValue_concat, ih]
      rfl

theorem digitsValue_zeros_append (k : Nat) (digits : List Char) :
    digitsValue (List.replicate k '0' ++ digits) = digitsValue digits := by
  rw [digitsValue_append, digitsValue_replicate_zero, Nat.zero_mul, Nat.zero_add]

theorem digitsValue_toDigits (n : Nat) : digitsValue (Nat.toDigits 10 n) = n := by
  have h := @Nat.ofDigitChars_ten_toDigits n
  rw [Nat.ofDigitChars_eq_foldl] at h
  exact h

/-- What digits behind the point are worth. -/
def fractionValue (digits : List Char) : ℚ := digitsValue digits / 10 ^ digits.length

theorem fractionValue_nonneg (digits : List Char) : 0 ≤ fractionValue digits := by
  rw [fractionValue]
  positivity

theorem fractionValue_lt_one {digits : List Char} (h : ∀ c ∈ digits, c.isDigit = true) :
    fractionValue digits < 1 := by
  rw [fractionValue, div_lt_one (by positivity)]
  exact_mod_cast digitsValue_lt h

/-- Zeros at the end of a fraction are worth nothing. -/
theorem fractionValue_append_zeros (digits : List Char) (k : Nat) :
    fractionValue (digits ++ List.replicate k '0') = fractionValue digits := by
  have hpow : (10 : ℚ) ^ k ≠ 0 := by positivity
  rw [fractionValue, fractionValue, digitsValue_append, digitsValue_replicate_zero,
    List.length_append, List.length_replicate, pow_add, Nat.add_zero, Nat.cast_mul, Nat.cast_pow]
  exact mul_div_mul_right _ _ hpow

/-- Digits without a superfluous zero in front are known by their value. -/
theorem eq_of_leading {a b : List Char} (ha : ∀ c ∈ a, c.isDigit = true)
    (hb : ∀ c ∈ b, c.isDigit = true) (hane : a ≠ []) (hleading : b.head? = some '0' → b = ['0'])
    (hlength : a.length ≤ b.length) (h : digitsValue a = digitsValue b) : a = b := by
  obtain ⟨k, hk⟩ := Nat.exists_eq_add_of_le' hlength
  -- With zeros in front there are as many digits, and then they are the same.
  have hpadded : List.replicate k '0' ++ a = b := by
    refine eq_of_digitsValue_eq (List.forall_mem_append.mpr ⟨?_, ha⟩) hb ?_ ?_
    · exact fun c hc => isDigit_replicate_zero hc
    · rw [List.length_append, List.length_replicate, hk]
    · rw [digitsValue_zeros_append, h]
  cases k with
  | zero => exact hpadded
  | succ k =>
      have hone : b = ['0'] := hleading (by rw [← hpadded]; rfl)
      have hpos := List.length_pos_iff.mpr hane
      rw [hone, List.length_singleton] at hk
      omega

/-- Digits behind the point that do not end with a zero are known by what they are worth. -/
theorem eq_of_trailing {a b : List Char} (ha : ∀ c ∈ a, c.isDigit = true)
    (hb : ∀ c ∈ b, c.isDigit = true) (htrailing : b.getLast? ≠ some '0')
    (hlength : a.length ≤ b.length) (h : fractionValue a = fractionValue b) : a = b := by
  obtain ⟨k, hk⟩ := Nat.exists_eq_add_of_le hlength
  have hlength' : (a ++ List.replicate k '0').length = b.length := by
    rw [List.length_append, List.length_replicate, hk]
  have hvalue : digitsValue (a ++ List.replicate k '0') = digitsValue b := by
    rw [← fractionValue_append_zeros a k, fractionValue, fractionValue, hlength',
      div_left_inj' (by positivity)] at h
    exact_mod_cast h
  have hpadded : a ++ List.replicate k '0' = b := by
    refine eq_of_digitsValue_eq (List.forall_mem_append.mpr ⟨ha, ?_⟩) hb hlength' hvalue
    exact fun c hc => isDigit_replicate_zero hc
  -- A zero that had to be added would be the last of the longer digits.
  cases k with
  | zero => simpa using hpadded
  | succ k =>
      refine absurd ?_ htrailing
      rw [← hpadded, List.getLast?_append, List.getLast?_replicate]
      rfl

/-- The digits of a number have no superfluous zero in front: without it there would be
    fewer digits of the same value. -/
theorem toDigits_leading {n : Nat} (h : (Nat.toDigits 10 n).head? = some '0') :
    Nat.toDigits 10 n = ['0'] := by
  obtain ⟨rest, hdigits⟩ := List.head?_eq_some_iff.mp h
  cases rest with
  | nil => exact hdigits
  | cons c rest =>
      have hall : ∀ d ∈ c :: rest, d.isDigit = true := fun d hd =>
        Nat.isDigit_of_mem_toDigits (b := 10) (n := n) (by decide) (by decide)
          (hdigits ▸ List.mem_cons_of_mem _ hd)
      have hvalue : digitsValue (c :: rest) = n := by
        rw [← digitsValue_toDigits n, hdigits]
        exact (digitsValue_zeros_append 1 (c :: rest)).symm
      have hshort : (Nat.toDigits 10 n).length ≤ (c :: rest).length :=
        (Nat.length_toDigits_le_iff (by decide) (by simp)).mpr (hvalue ▸ digitsValue_lt hall)
      rw [hdigits, List.length_cons] at hshort
      omega

/-! ## Numerals and what they denote -/

/-- The number that digits denote, with a point among them or none. There is a digit before
    the point. -/
def magnitude? (s : List Char) : Option ℚ :=
  let fraction := (s.dropWhile (· != '.')).tail
  if (wholeBlock s).isEmpty || !(wholeBlock s ++ fraction).all Char.isDigit then none
  else some (Decimal.ofBlocks (wholeBlock s) fraction).value

/-- The number that a decimal text denotes, with a sign or without. -/
def rational? : List Char → Option ℚ
  | '-' :: s => (magnitude? s).map (- ·)
  | s => magnitude? s

/-- A number with the opposite sign, or as it is. -/
def signed (negative : Bool) (q : ℚ) : ℚ := if negative then -q else q

/-- A decimal numeral: an optional sign, at least one digit before the point and no zero in
    front of another digit there, and any digits behind it. -/
@[ext]
structure Numeral where
  negative : Bool
  whole : List Char
  fraction : List Char
  whole_isDigit : ∀ c ∈ whole, c.isDigit = true
  whole_ne_nil : whole ≠ []
  leading : whole.head? = some '0' → whole = ['0']
  fraction_isDigit : ∀ c ∈ fraction, c.isDigit = true

/-- Digits with a point before them. Where there are none there is no point. -/
def pointed : List Char → List Char
  | [] => []
  | c :: digits => '.' :: c :: digits

theorem pointed_of_ne_nil {digits : List Char} (h : digits ≠ []) :
    pointed digits = '.' :: digits := by
  obtain ⟨c, rest, rfl⟩ := List.exists_cons_of_ne_nil h
  rfl

theorem point_not_mem_of_isDigit {digits : List Char} (h : ∀ c ∈ digits, c.isDigit = true) :
    '.' ∉ digits :=
  fun hpoint => absurd (h _ hpoint) (by decide)

namespace Numeral

/-- The text of a numeral. -/
def chars (n : Numeral) : List Char :=
  Scalar.signText n.negative ++ n.whole ++ pointed n.fraction

/-- The decimal of the digits, without the sign. -/
def decimal (n : Numeral) : Decimal := .ofBlocks n.whole n.fraction

/-- The number of a numeral. -/
def value (n : Numeral) : ℚ := signed n.negative n.decimal.value

theorem value_decimal (n : Numeral) :
    n.decimal.value = digitsValue n.whole + fractionValue n.fraction :=
  Decimal.value_ofBlocks n.whole n.fraction

/-- There is a digit in front of the digits, and no sign. -/
theorem exists_whole_eq (n : Numeral) : ∃ c rest, n.whole = c :: rest ∧ c ≠ '-' := by
  obtain ⟨c, rest, hwhole⟩ := List.exists_cons_of_ne_nil n.whole_ne_nil
  refine ⟨c, rest, hwhole, ?_⟩
  rintro rfl
  exact absurd (n.whole_isDigit '-' (hwhole ▸ List.mem_cons_self)) (by decide)

theorem point_not_mem_front (n : Numeral) : '.' ∉ Scalar.signText n.negative ++ n.whole := by
  intro h
  rcases List.mem_append.mp h with h | h
  · cases hn : n.negative <;> simp [Scalar.signText, hn] at h
  · exact point_not_mem_of_isDigit n.whole_isDigit h

end Numeral

/-- The digits before the point and those behind it are found by the point. -/
theorem magnitude?_chars (n : Numeral) :
    magnitude? (n.whole ++ pointed n.fraction) = some n.decimal.value := by
  have hwhole : ∀ c ∈ n.whole, (c != '.') = true := fun c hc =>
    bne_iff_ne.mpr fun h => point_not_mem_of_isDigit n.whole_isDigit (h ▸ hc)
  have hblock : wholeBlock (n.whole ++ pointed n.fraction) = n.whole := by
    rw [wholeBlock, List.takeWhile_append_of_pos hwhole]
    cases n.fraction with
    | nil => exact List.append_nil _
    | cons c rest => exact List.append_nil _
  have hbehind : ((n.whole ++ pointed n.fraction).dropWhile (· != '.')).tail = n.fraction := by
    rw [List.dropWhile_append_of_pos hwhole]
    cases n.fraction with
    | nil => rfl
    | cons c rest => rfl
  have hempty : n.whole.isEmpty = false := List.isEmpty_eq_false_iff.mpr n.whole_ne_nil
  have hdigits : (n.whole ++ n.fraction).all Char.isDigit = true :=
    List.all_eq_true.mpr (List.forall_mem_append.mpr ⟨n.whole_isDigit, n.fraction_isDigit⟩)
  simp only [magnitude?, hblock, hbehind, hempty, hdigits]
  rfl

/-- The text of a numeral denotes its number. -/
theorem rational?_chars (n : Numeral) : rational? n.chars = some n.value := by
  rw [Numeral.chars, List.append_assoc, Numeral.value]
  cases n.negative with
  | true =>
      change (magnitude? (n.whole ++ pointed n.fraction)).map (- ·) = _
      rw [magnitude?_chars]
      rfl
  | false =>
      change rational? (n.whole ++ pointed n.fraction) = _
      rw [rational?, magnitude?_chars]
      · rfl
      · -- A text that begins with a digit is not read as one with a sign.
        intro rest heq
        obtain ⟨c, digits, hwhole, hsign⟩ := n.exists_whole_eq
        rw [hwhole] at heq
        exact hsign (List.cons.inj heq).1

/-! ## Reduced numerals -/

theorem Decimal.value_nonneg (d : Decimal) : 0 ≤ d.value :=
  mul_nonneg (Nat.cast_nonneg _) (zpow_nonneg (by norm_num) _)

namespace Numeral

/-- A zero and nothing behind it. -/
def IsZero (n : Numeral) : Prop := n.whole = ['0'] ∧ n.fraction = []

instance (n : Numeral) : Decidable n.IsZero := inferInstanceAs (Decidable (_ ∧ _))

/-- A numeral whose fraction does not end with a zero, and that is not a zero with a
    sign. -/
structure Reduced (n : Numeral) : Prop where
  trailing : n.fraction.getLast? ≠ some '0'
  unsigned : n.negative = true → ¬n.IsZero

theorem IsZero.value_eq_zero {n : Numeral} (h : n.IsZero) : n.decimal.value = 0 := by
  rw [value_decimal, h.1, h.2]
  simp [digitsValue, digitValue, fractionValue]

/-- The digits before the point are worth what is left by rounding down, and those behind
    it are worth the rest. -/
theorem digits_eq_of_value_eq {m n : Numeral} (h : m.decimal.value = n.decimal.value) :
    digitsValue m.whole = digitsValue n.whole ∧
      fractionValue m.fraction = fractionValue n.fraction := by
  rw [value_decimal, value_decimal] at h
  have hm := fractionValue_nonneg m.fraction
  have hn := fractionValue_nonneg n.fraction
  have hmlt := fractionValue_lt_one m.fraction_isDigit
  have hnlt := fractionValue_lt_one n.fraction_isDigit
  -- Fractions are less than one, so the whole numbers are less than one apart.
  have hle : (digitsValue m.whole : ℚ) < digitsValue n.whole + 1 := by linarith
  have hge : (digitsValue n.whole : ℚ) < digitsValue m.whole + 1 := by linarith
  norm_cast at hle hge
  have hwhole : digitsValue m.whole = digitsValue n.whole := by omega
  rw [hwhole] at h
  exact ⟨hwhole, add_left_cancel h⟩

/-- Without zeros at the end the digits are known by the number without its sign. -/
theorem blocks_eq_of_value_eq {m n : Numeral} (hm : m.fraction.getLast? ≠ some '0')
    (hn : n.fraction.getLast? ≠ some '0') (h : m.decimal.value = n.decimal.value) :
    m.whole = n.whole ∧ m.fraction = n.fraction := by
  obtain ⟨hwhole, hfraction⟩ := digits_eq_of_value_eq h
  constructor
  · rcases Nat.le_total m.whole.length n.whole.length with hle | hle
    · exact eq_of_leading m.whole_isDigit n.whole_isDigit m.whole_ne_nil n.leading hle hwhole
    · exact (eq_of_leading n.whole_isDigit m.whole_isDigit n.whole_ne_nil m.leading hle
        hwhole.symm).symm
  · rcases Nat.le_total m.fraction.length n.fraction.length with hle | hle
    · exact eq_of_trailing m.fraction_isDigit n.fraction_isDigit hn hle hfraction
    · exact (eq_of_trailing n.fraction_isDigit m.fraction_isDigit hm hle hfraction.symm).symm

/-- The numeral `0`. -/
def zero : Numeral where
  negative := false
  whole := ['0']
  fraction := []
  whole_isDigit := List.forall_mem_singleton.mpr (by decide)
  whole_ne_nil := List.cons_ne_nil '0' []
  leading _ := rfl
  fraction_isDigit := List.forall_mem_nil _

theorem Reduced.isZero {n : Numeral} (h : n.Reduced) (hvalue : n.decimal.value = 0) :
    n.IsZero := by
  have hzero : zero.decimal.value = 0 := IsZero.value_eq_zero ⟨rfl, rfl⟩
  exact blocks_eq_of_value_eq h.trailing (n := zero) (by decide) (hvalue.trans hzero.symm)

/-- A reduced numeral has a sign just if its number is less than zero. -/
theorem Reduced.negative_iff {n : Numeral} (h : n.Reduced) :
    n.negative = true ↔ n.value < 0 := by
  have hnonneg := n.decimal.value_nonneg
  rw [value]
  cases hn : n.negative with
  | false => simpa [signed] using hnonneg
  | true =>
      have hne : n.decimal.value ≠ 0 := fun hzero => h.unsigned hn (h.isZero hzero)
      simpa [signed] using lt_of_le_of_ne hnonneg hne.symm

/-- Reduced numerals with the same number are the same: the number tells the sign, and then
    the digits. -/
theorem Reduced.eq_of_value_eq {m n : Numeral} (hm : m.Reduced) (hn : n.Reduced)
    (h : m.value = n.value) : m = n := by
  have hsign : m.negative = n.negative := by
    rw [Bool.eq_iff_iff, hm.negative_iff, hn.negative_iff, h]
  have hdecimal : m.decimal.value = n.decimal.value := by
    rw [value, value, hsign] at h
    cases hneg : n.negative <;> simpa [signed, hneg] using h
  obtain ⟨hwhole, hfraction⟩ := blocks_eq_of_value_eq hm.trailing hn.trailing hdecimal
  exact Numeral.ext hsign hwhole hfraction

end Numeral

/-! ## Numbers with a fixed number of places -/

namespace Numeral

theorem decimal_eq {n : Numeral} {k places : Nat}
    (hdigits : digitsValue (n.whole ++ n.fraction) = k) (hplaces : n.fraction.length = places) :
    n.decimal = ⟨k, -Int.ofNat places⟩ := by
  rw [decimal, Decimal.ofBlocks, hdigits, hplaces]

/-- A point among digits without a superfluous zero in front makes a numeral. Where there are
    too few of them for the places, zeros fill these up to the point. -/
theorem exists_withPoint (negative : Bool) {digits : List Char}
    (hdigit : ∀ c ∈ digits, c.isDigit = true) (hne : digits ≠ [])
    (hleading : digits.head? = some '0' → digits = ['0']) {places : Nat} (hplaces : places ≠ 0) :
    ∃ n : Numeral, n.negative = negative ∧ n.fraction.length = places ∧
      digitsValue (n.whole ++ n.fraction) = digitsValue digits ∧
      n.chars = Scalar.signText negative ++ Decimal.withPoint digits places := by
  rw [Decimal.withPoint]
  split
  case isTrue hlt =>
      have hbefore : digits.length - places ≠ 0 := by omega
      have hbehind : digits.drop (digits.length - places) ≠ [] := by
        rw [← List.length_pos_iff, List.length_drop]
        omega
      refine ⟨⟨negative, digits.take (digits.length - places),
        digits.drop (digits.length - places), fun c hc => hdigit c (List.mem_of_mem_take hc),
        ?_, fun hzero => ?_, fun c hc => hdigit c (List.mem_of_mem_drop hc)⟩, rfl, ?_, ?_, ?_⟩
      · rw [← List.length_pos_iff, List.length_take]
        omega
      · -- A zero in front would be the only digit, and there are more digits than places.
        rw [List.head?_take, if_neg hbefore] at hzero
        rw [hleading hzero, List.length_singleton] at hlt
        omega
      · rw [List.length_drop]
        omega
      · rw [List.take_append_drop]
      · rw [chars, pointed_of_ne_nil hbehind, List.append_assoc]
  case isFalse hle =>
      have hbehind : List.replicate (places - digits.length) '0' ++ digits ≠ [] :=
        List.append_ne_nil_of_right_ne_nil _ hne
      refine ⟨⟨negative, ['0'], List.replicate (places - digits.length) '0' ++ digits,
        List.forall_mem_singleton.mpr (by decide), List.cons_ne_nil _ _, fun _ => rfl,
        List.forall_mem_append.mpr ⟨fun c hc => isDigit_replicate_zero hc, hdigit⟩⟩,
        rfl, ?_, ?_, ?_⟩
      · rw [List.length_append, List.length_replicate]
        omega
      · exact (digitsValue_zeros_append 1 _).trans (digitsValue_zeros_append _ digits)
      · rw [chars, pointed_of_ne_nil hbehind, List.append_assoc]
        rfl

/-- The text of a number with so many places is a numeral with its digits. -/
theorem exists_text (negative : Bool) (k places : Nat) :
    ∃ n : Numeral, n.negative = negative ∧ n.decimal = ⟨k, -Int.ofNat places⟩ ∧
      n.chars = Scalar.signText negative ++ Decimal.text ⟨k, -Int.ofNat places⟩ := by
  have hdigit : ∀ c ∈ Nat.toDigits 10 k, c.isDigit = true :=
    fun c hc => Nat.isDigit_of_mem_toDigits (by decide) (by decide) hc
  have hvalue := digitsValue_toDigits k
  cases places with
  | zero =>
      have htext : Decimal.text ⟨k, -Int.ofNat 0⟩ = Nat.toDigits 10 k := List.append_nil _
      refine ⟨⟨negative, Nat.toDigits 10 k, [], hdigit, Nat.toDigits_ne_nil, toDigits_leading,
        by simp⟩, rfl, decimal_eq (by rw [List.append_nil, hvalue]) rfl, ?_⟩
      rw [htext]
      exact List.append_nil _
  | succ places =>
      obtain ⟨n, hnegative, hplaces, hdigits, hchars⟩ := exists_withPoint negative hdigit
        Nat.toDigits_ne_nil toDigits_leading (Nat.succ_ne_zero places)
      exact ⟨n, hnegative, decimal_eq (hdigits.trans hvalue) hplaces, hchars⟩

end Numeral

/-- A finite scalar is written as a numeral that denotes the decimal it is rounded to. -/
theorem Scalar.exists_fixedChars {v : Scalar} {negative : Bool} {m s : Nat}
    (h : parts v = .finite negative m s) (places : Nat) :
    ∃ n : Numeral, n.chars = fixedChars places v ∧ n.fraction.length = places ∧
      n.value = signed negative (Decimal.fixed places m s).value := by
  obtain ⟨n, hnegative, hdecimal, hchars⟩ :=
    Numeral.exists_text negative (Decimal.fixed places m s).digits places
  have hfixed : n.decimal = Decimal.fixed places m s := hdecimal
  refine ⟨n, ?_, ?_, ?_⟩
  · rw [hchars, fixedChars, h]
    rfl
  · have hexponent := congrArg Decimal.exponent hdecimal
    simpa [Numeral.decimal, Decimal.ofBlocks] using hexponent
  · rw [Numeral.value, hnegative, hfixed]

end TurtleGraphics
