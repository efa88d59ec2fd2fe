import TurtleGraphics.Proofs.Ranges

/-!
# Rounding Down and Counting

A loop runs once for every whole number that is at least zero and below its count rounded
down. Here the rounds are counted by taking the count apart into units, which does not
mention rounding at all. The two have to agree on whether there is a first round: the count
has whole ones below it exactly if it is above zero once it is rounded down.

Rounding down puts a number together from its parts, so the question is what the order makes
of a number that was put together. Words that stand for numbers above zero are those from
one up to the word of the infinite number (`Scalar.zero_lt_ofBits_iff`). In them the exponent
is in front of the mantissa, so no fields are needed to say so, and it suffices to know how
large the word of a rounded number is.

## Main definitions

* `Scalar.AboveZero`: What the order compares with zero.
* `Scalar.wordOfUnits`: The word of so many units.

## Theorems

* `Scalar.aboveZero_unpack`: The words of numbers above zero.
* `Scalar.pack_unpack`: A word that is taken apart can be put together again.
* `Scalar.zero_lt_iff_toBits`, `Scalar.zero_lt_ofBits_iff`: Numbers above zero by their words.
* `Scalar.zero_lt_ofUnits_iff`: A number of units is above zero if there are any units.
* `Scalar.wholeBelow_pos_iff`: There is a whole one below a number that is above zero when
  rounded down.
-/

namespace TurtleGraphics

namespace Scalar

open Float.Model

/-- Whether a number that was taken apart is above zero. -/
def AboveZero : UnpackedFloat → Prop
  | .infinity sign => sign = .positive
  | .notANumber => False
  | .zero _ => False
  | .finite sign _ _ _ => sign = .positive

theorem zero_lt_iff_aboveZero (v : Scalar) : 0.0 < v ↔ AboveZero v.toModel.unpack := by
  rw [lt_iff_unpack, unpack_zero]
  rcases v.toModel.unpack with (_ | _) | _ | sign | ⟨_ | _, m, e, hm⟩ <;>
    simp [UnpackedFloat.compare, AboveZero]

section

variable {b : BitVec 64}

theorem unpackExponent_eq_iff {e : Nat} (he : e < 2048) :
    @UnpackedFloat.unpackExponent .binary64 b = BitVec.ofNat 11 e ↔
      b.toNat / 2 ^ 52 % 2048 = e := by
  have hfits : e % 2 ^ Format.binary64.exponentBits = e := Nat.mod_eq_of_lt he
  rw [← BitVec.toNat_inj, toNat_unpackExponent, BitVec.toNat_ofNat, hfits]

theorem unpackMantissa_eq_zero_iff :
    @UnpackedFloat.unpackMantissa .binary64 b = 0#52 ↔ b.toNat % 2 ^ 52 = 0 := by
  rw [← BitVec.toNat_inj, toNat_unpackMantissa]
  rfl

theorem ofBitVec_unpackSign_iff :
    UnpackedFloat.Sign.ofBitVec (@UnpackedFloat.unpackSign .binary64 b) = .positive ↔
      b.toNat < 2 ^ 63 := by
  refine ⟨fun h => ?_, ofBitVec_unpackSign⟩
  have hlt := b.isLt
  have hsign := toNat_unpackSign b
  unfold UnpackedFloat.Sign.ofBitVec at h
  split at h
  next hzero =>
    rw [hzero, BitVec.toNat_ofNat] at hsign
    omega
  next => cases h

end

/-- The words of numbers above zero: the sign is not set, not all fields are zero, and the
    word is not beyond that of the infinite number, where no words stand for a number. -/
theorem aboveZero_unpack (b : BitVec 64) :
    AboveZero (UnpackedFloat.unpack .binary64 b) ↔ 0 < b.toNat ∧ b.toNat ≤ 2047 * 2 ^ 52 := by
  have hlargest : -1#11 = BitVec.ofNat 11 2047 := rfl
  have hlt := b.isLt
  unfold UnpackedFloat.unpack
  simp only
  split
  next he =>
    rw [hlargest, unpackExponent_eq_iff (by decide)] at he
    split
    next hm =>
      rw [unpackMantissa_eq_zero_iff] at hm
      rw [AboveZero, ofBitVec_unpackSign_iff]
      omega
    next hm =>
      rw [unpackMantissa_eq_zero_iff] at hm
      simp only [AboveZero, false_iff]
      omega
  next he =>
    rw [hlargest, unpackExponent_eq_iff (by decide)] at he
    split
    next hzero =>
      rw [unpackExponent_eq_iff (by decide)] at hzero
      split
      next hm =>
        rw [unpackMantissa_eq_zero_iff] at hm
        simp only [AboveZero, false_iff]
        omega
      next hm =>
        rw [unpackMantissa_eq_zero_iff] at hm
        rw [AboveZero, ofBitVec_unpackSign_iff]
        omega
    next hzero =>
      rw [unpackExponent_eq_iff (by decide)] at hzero
      rw [AboveZero, ofBitVec_unpackSign_iff]
      omega

/-- A word is its three fields. -/
theorem packComponents_unpack (b : BitVec 64) :
    UnpackedFloat.packComponents .binary64
      (UnpackedFloat.Sign.ofBitVec (@UnpackedFloat.unpackSign .binary64 b))
      (UnpackedFloat.unpackExponent b) (UnpackedFloat.unpackMantissa b) = b := by
  have hsign : (UnpackedFloat.Sign.ofBitVec (@UnpackedFloat.unpackSign .binary64 b)).toBitVec =
      @UnpackedFloat.unpackSign .binary64 b := by
    generalize @UnpackedFloat.unpackSign .binary64 b = sign
    revert sign
    decide
  have hlt := b.isLt
  refine BitVec.eq_of_toNat_eq ?_
  rw [UnpackedFloat.packComponents, hsign, BitVec.toNat_append, BitVec.toNat_append,
    ← Nat.shiftLeft_add_eq_or_of_lt (BitVec.isLt _),
    ← Nat.shiftLeft_add_eq_or_of_lt (BitVec.isLt _), toNat_unpackSign, toNat_unpackExponent,
    toNat_unpackMantissa, Nat.shiftLeft_eq, Nat.shiftLeft_eq]
  change (b.toNat / 2 ^ 63 % 2 * 2 ^ 11 + b.toNat / 2 ^ 52 % 2048) * 2 ^ 52 + b.toNat % 2 ^ 52 = _
  omega

/-- A finite number on a scale that is not too large, put together: with its leading one
    implied if the mantissa is long enough for that, and on the smallest scale otherwise. -/
theorem pack_finite (sign : UnpackedFloat.Sign) {m : Nat} {e : Int} (hm : 0 < m)
    (he : (e + 1075).toNat < 2047) :
    UnpackedFloat.pack .binary64 (.finite sign m e hm) =
      UnpackedFloat.packComponents .binary64 sign
        (if m.log2 = 52 then BitVec.ofNat 11 (e + 1075).toNat else 0#11) (BitVec.ofNat 52 m) := by
  have hbias : e + (Format.binary64.exponentBias : Nat) +
      (Format.binary64.mantissaBitsWithoutImplicit : Nat) = e + 1075 := by
    change e + 1023 + 52 = e + 1075
    omega
  have hsmall : ¬ 2 ^ Format.binary64.exponentBits ≤ (e + 1075).toNat + 1 := by
    change ¬ 2048 ≤ _
    omega
  have hlong : m.log2 + 1 = Format.binary64.mantissaBits ↔ m.log2 = 52 := by
    change m.log2 + 1 = 53 ↔ _
    omega
  simp only [UnpackedFloat.pack, hbias, if_neg hsmall, hlong]
  split <;> rfl

/-- Unless it stands for no number, a word that is taken apart is put together as it was. -/
theorem pack_unpack (b : BitVec 64) :
    UnpackedFloat.unpack .binary64 b = .notANumber ∨
      UnpackedFloat.pack .binary64 (UnpackedFloat.unpack .binary64 b) = b := by
  have hwhole := packComponents_unpack b
  have hlargest : -1#11 = BitVec.ofNat 11 2047 := rfl
  have hbias : (Format.binary64.exponentBias : Int) = 1023 := rfl
  have hexponent := toNat_unpackExponent b
  have hmantissa := toNat_unpackMantissa b
  unfold UnpackedFloat.unpack
  simp only
  split
  next he =>
    split
    next hm =>
      refine .inr ?_
      rw [he, hm] at hwhole
      exact hwhole
    next => exact .inl rfl
  next he =>
    rw [hlargest, unpackExponent_eq_iff (by decide)] at he
    refine .inr ?_
    split
    next hzero =>
      split
      next hm =>
        rw [hzero, hm] at hwhole
        exact hwhole
      next hm =>
        -- A fraction is too short for a leading one.
        have hshort : ¬ (@UnpackedFloat.unpackMantissa .binary64 b).toNat.log2 = 52 := by
          rw [unpackMantissa_eq_zero_iff, ← hmantissa] at hm
          rw [Nat.log2_eq_iff hm, hmantissa]
          omega
        refine (pack_finite _ _ ?_).trans ?_
        · rw [hzero, hbias]
          decide
        · rw [if_neg hshort, ← hzero, BitVec.ofNat_toNat, BitVec.setWidth_eq]
          exact hwhole
    next hzero =>
      have hleading := toNat_implied b
      have hlong : (1#1 ++ @UnpackedFloat.unpackMantissa .binary64 b).toNat.log2 = 52 := by
        rw [Nat.log2_eq_iff (by omega), hleading]
        omega
      have hfraction : BitVec.ofNat 52 (1#1 ++ @UnpackedFloat.unpackMantissa .binary64 b).toNat =
          @UnpackedFloat.unpackMantissa .binary64 b := by
        refine BitVec.eq_of_toNat_eq ?_
        rw [BitVec.toNat_ofNat, hleading, hmantissa]
        omega
      have hscale : ((@UnpackedFloat.unpackExponent .binary64 b).toNat -
          ((Format.binary64.exponentBias : Nat) + (52 : Nat)) + 1075 : Int).toNat =
          (@UnpackedFloat.unpackExponent .binary64 b).toNat := by
        rw [hbias]
        omega
      refine (pack_finite _ _ ?_).trans ?_
      · rw [hscale, hexponent]
        omega
      · rw [if_pos hlong, hscale, hfraction, BitVec.ofNat_toNat, BitVec.setWidth_eq]
        exact hwhole

theorem zero_lt_iff_toBits (v : Scalar) :
    0.0 < v ↔ 0 < v.toBits.toNat ∧ v.toBits.toNat ≤ 2047 * 2 ^ 52 :=
  (zero_lt_iff_aboveZero v).trans (aboveZero_unpack _)

/-- A word stands for a number above zero, also if it has to be put in order first. -/
theorem zero_lt_ofBits_iff (w : UInt64) :
    0.0 < Float.ofBits w ↔ 0 < w.toNat ∧ w.toNat ≤ 2047 * 2 ^ 52 := by
  have hword := aboveZero_unpack w.toBitVec
  rw [zero_lt_iff_aboveZero]
  change AboveZero (UnpackedFloat.unpack .binary64
    (UnpackedFloat.pack .binary64 (UnpackedFloat.unpack .binary64 w.toBitVec))) ↔ _
  rcases pack_unpack w.toBitVec with hnone | hsame
  · -- All words for no number are put in order by one of them.
    rw [hnone] at hword ⊢
    exact hword
  · rw [hsame]
    exact hword

/-- The word of so many units, without a sign. -/
def wordOfUnits (units : Nat) : Nat :=
  (units.log2 - 52) * 2 ^ 52 + units / 2 ^ (units.log2 - 52)

theorem wordOfUnits_lt {units k : Nat} (h : units < 2 ^ (k + 53)) :
    wordOfUnits units < (k + 2) * 2 ^ 52 := by
  have hscale : units.log2 - 52 ≤ k := by
    rcases Nat.eq_zero_or_pos units with rfl | hpos
    · exact Nat.zero_le k
    · have hlog := (Nat.log2_lt (Nat.ne_of_gt hpos)).mpr h
      omega
  have hmantissa : units / 2 ^ (units.log2 - 52) < 2 ^ 53 := by
    refine Nat.div_lt_of_lt_mul (Nat.lt_of_lt_of_le Nat.lt_log2_self ?_)
    rw [← Nat.pow_add]
    exact Nat.pow_le_pow_right (by decide) (by omega)
  unfold wordOfUnits
  omega

theorem wordOfUnits_pos_iff (units : Nat) : 0 < wordOfUnits units ↔ 0 < units := by
  unfold wordOfUnits
  constructor
  · intro h
    rcases Nat.eq_zero_or_pos units with rfl | hpos
    · exact absurd h (by decide)
    · exact hpos
  · intro hpos
    have hle : 2 ^ (units.log2 - 52) ≤ units :=
      Nat.le_trans (Nat.pow_le_pow_right (by decide) (Nat.sub_le _ _))
        (Nat.log2_self_le (Nat.ne_of_gt hpos))
    have hmantissa := Nat.div_pos hle (Nat.two_pow_pos _)
    omega

theorem toNat_toUInt64 {n : Nat} (h : n < 2 ^ 64) : n.toUInt64.toNat = n :=
  UInt64.toNat_ofNat_of_lt h

/-- So many units are above zero if there are any. -/
theorem zero_lt_ofUnits_iff {units k : Nat} (h : units < 2 ^ (k + 53)) (hk : k ≤ 2045) :
    0.0 < ofUnits false units ↔ 0 < units := by
  have hlt := wordOfUnits_lt h
  change 0.0 < Float.ofBits (wordOfUnits units + 0).toUInt64 ↔ _
  rw [zero_lt_ofBits_iff, toNat_toUInt64 (by omega), Nat.add_zero, wordOfUnits_pos_iff]
  omega

/-- With the sign set nothing is above zero. -/
theorem not_zero_lt_ofUnits {units k : Nat} (h : units < 2 ^ (k + 53)) (hk : k ≤ 2046) :
    ¬ 0.0 < ofUnits true units := by
  have hlt := wordOfUnits_lt h
  have hsign : Nat.pow 2 63 = 2 ^ 63 := by decide
  change ¬ 0.0 < Float.ofBits (wordOfUnits units + Nat.pow 2 63).toUInt64
  rw [zero_lt_ofBits_iff, hsign, toNat_toUInt64 (by omega)]
  omega

/-- How many units a scalar can have. -/
theorem units_lt_of_parts {v : Scalar} {negative : Bool} {m s : Nat}
    (h : parts v = .finite negative m s) : m * 2 ^ s < 2 ^ (s + 53) ∧ s ≤ 2045 := by
  have hfields : m < 2 ^ 53 ∧ s ≤ 2045 := by
    unfold parts at h
    simp only at h
    split at h
    next => split at h <;> cases h
    next hfinite =>
      change ¬ v.toBits.toNat / 2 ^ 52 % 2048 = 2047 at hfinite
      split at h
      next hzero =>
        injection h with hsign hm hs
        change v.toBits.toNat % 2 ^ 52 = m at hm
        omega
      next hnormal =>
        injection h with hsign hm hs
        change v.toBits.toNat % 2 ^ 52 + 2 ^ 52 = m at hm
        change v.toBits.toNat / 2 ^ 52 % 2048 - 1 = s at hs
        omega
  refine ⟨?_, hfields.2⟩
  rw [Nat.add_comm, Nat.pow_add]
  exact Nat.mul_lt_mul_of_pos_right hfields.1 (Nat.two_pow_pos s)

/-- Neither what is no number nor the infinite number below all others is above zero. -/
theorem not_zero_lt_of_parts {v : Scalar} (h : parts v = .nan ∨ parts v = .infinite true) :
    ¬ 0.0 < v := by
  have hlt := v.toBits.toNat_lt
  rw [zero_lt_iff_toBits]
  unfold parts at h
  simp only at h
  split at h
  next hlargest =>
    change v.toBits.toNat / 2 ^ 52 % 2048 = 2047 at hlargest
    split at h
    next hfraction =>
      rcases h with h | h
      · cases h
      · injection h with hsign
        have hset := of_decide_eq_true hsign
        change 2 ^ 63 ≤ v.toBits.toNat at hset
        omega
    next hfraction =>
      change ¬ v.toBits.toNat % 2 ^ 52 = 0 at hfraction
      omega
  next =>
    split at h
    all_goals rcases h with h | h <;> cases h

/-- Rounding away from zero adds less than a whole one, so the scale does not go up by more
    than one. -/
theorem rounded_lt {units s whole : Nat} (h : units < 2 ^ (s + 53))
    (hwhole : whole ≤ units / unitsPerOne + 1) :
    whole * unitsPerOne < 2 ^ (max s 1021 + 1 + 53) := by
  obtain ⟨n, hn, hone⟩ := exists_unitsPerOne
  have hpow : unitsPerOne = 2 ^ n := hone
  have hdown := Nat.div_mul_le_self units unitsPerOne
  have hup := Nat.mul_le_mul_right unitsPerOne hwhole
  have hunits : 2 ^ (s + 53) ≤ 2 ^ (max s 1021 + 53) :=
    Nat.pow_le_pow_right (by decide) (by omega)
  have hunit : 2 ^ n ≤ 2 ^ (max s 1021 + 53) := Nat.pow_le_pow_right (by decide) (by omega)
  rw [Nat.add_mul, Nat.one_mul] at hup
  rw [show max s 1021 + 1 + 53 = max s 1021 + 53 + 1 by omega, Nat.pow_succ]
  omega

/-- There is a whole one below a number exactly if the number is above zero when rounded
    down. -/
theorem wholeBelow_pos_iff (v : Scalar) : 0 < wholeBelow v ↔ 0.0 < floor v := by
  unfold wholeBelow floor
  cases hparts : parts v with
  | nan =>
      simp only [Nat.lt_irrefl, false_iff]
      exact not_zero_lt_of_parts (.inl hparts)
  | infinite negative =>
      cases negative with
      | true =>
          simp only [Nat.lt_irrefl, false_iff]
          exact not_zero_lt_of_parts (.inr hparts)
      | false =>
          simp only
          rw [zero_lt_iff_toBits, of_parts_infinite hparts]
          decide
  | finite negative m s =>
      rcases units_lt_of_parts hparts with ⟨hunits, hs⟩
      cases negative with
      | true =>
          simp only [Nat.lt_irrefl, false_iff]
          refine not_zero_lt_ofUnits (rounded_lt hunits ?_) (by omega)
          split
          · exact Nat.le_refl _
          · exact Nat.le_succ _
      | false =>
          simp only [Bool.false_and, Bool.false_eq_true, if_false]
          change _ ↔ 0.0 < ofUnits false (m * 2 ^ s / unitsPerOne * unitsPerOne)
          have hdown := Nat.div_mul_le_self (m * 2 ^ s) unitsPerOne
          have hpos : 0 < unitsPerOne := by
            obtain ⟨n, -, hone⟩ := exists_unitsPerOne
            rw [hone]
            exact Nat.two_pow_pos n
          rw [zero_lt_ofUnits_iff (Nat.lt_of_le_of_lt hdown hunits) hs]
          exact (Nat.mul_pos_iff_of_pos_right hpos).symm

end Scalar

end TurtleGraphics
