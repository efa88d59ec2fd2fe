import TurtleGraphics.Proofs.Rounding

/-!
# Whole Numbers as Scalars

The rounds of a loop are counted with natural numbers, and a program sees the count as a
scalar. A natural number of at most fifty-three bits has a scalar of its own: its bits are
the leading bits of the mantissa, and nothing is rounded on the way. So the whole ones below
the scalar of a number are as many as the number says (`Scalar.wholeBelow_ofNat`), and the
scalar is in range if the number is (`Scalar.inRange_ofNat`).

A scalar is rounded by shifting its mantissa to the right until it has fifty-three bits. If
the bits that are shifted out are all zero, nothing is rounded. That is all there is to say
about rounding here (`Scalar.roundWithAccuracy_exact`): a natural number is made long enough
first, and the multiplication by one that comes with it adds zeros only.

## Theorems

* `Scalar.shiftRight_exact`: Zeros are shifted out without loss.
* `Scalar.roundWithAccuracy_exact`: A mantissa with zeros behind it is not rounded.
* `Scalar.toNat_pack`, `Scalar.unpack_pack`: The word of a mantissa with its leading one.
* `Scalar.unpack_ofNat`: Natural numbers as scalars, taken apart.
* `Scalar.wholeBelow_ofNat`: Counting gives the number back.
* `Scalar.inRange_ofNat`: Numbers up to the largest result are in range.
* `Scalar.le_of_not_lt`: Finite scalars can be compared.
-/

namespace TurtleGraphics

namespace Scalar

open Float.Model

/-- Shifting a mantissa that ends in zeros loses nothing. -/
theorem shiftRight_exact (m k : Nat) :
    UnpackedFloat.ExtendedMantissa.ofMantissaAndAccuracy (m * 2 ^ k) .exact >>> k
      = UnpackedFloat.ExtendedMantissa.ofMantissaAndAccuracy m .exact := by
  induction k generalizing m with
  | zero =>
      rw [Nat.pow_zero, Nat.mul_one]
      rfl
  | succ k ih =>
      have htwice : m * 2 ^ (k + 1) = m * 2 * 2 ^ k := by
        rw [Nat.pow_succ, Nat.mul_assoc, Nat.mul_comm (2 ^ k)]
      have hstep := congrArg UnpackedFloat.ExtendedMantissa.shiftRightOne (ih (m * 2))
      rw [htwice]
      refine hstep.trans ?_
      simp [UnpackedFloat.ExtendedMantissa.shiftRightOne,
        UnpackedFloat.ExtendedMantissa.ofMantissaAndAccuracy]

/-- The scale on which a mantissa of fifty-three bits has to be is the one that it is on,
    however many zeros are behind it. -/
theorem targetExponent_eq {m : Nat} (hm : m.log2 = 52) (k : Nat) {e : Int} (he : -1074 ≤ e) :
    Format.binary64.targetExponent (totalExponent (m * 2 ^ k) (e - k)) = e := by
  have hne : m ≠ 0 := by
    rintro rfl
    exact absurd hm (by decide)
  have hlog : (m * 2 ^ k).log2 = 52 + k := by
    have hbounds := (Nat.log2_eq_iff hne).mp hm
    rw [Nat.log2_eq_iff (Nat.mul_ne_zero hne (Nat.two_pow_pos k).ne'), Nat.pow_add,
      Nat.add_right_comm, Nat.pow_add]
    exact ⟨Nat.mul_le_mul_right _ hbounds.1,
      Nat.mul_lt_mul_of_pos_right hbounds.2 (Nat.two_pow_pos k)⟩
  simp only [Format.targetExponent, totalExponent, hlog, Format.mantissaBits,
    Format.minExponent]
  omega

/-- A mantissa of fifty-three bits with zeros behind it is not rounded. -/
theorem roundWithAccuracy_exact (sign : UnpackedFloat.Sign) {m : Nat} (hm : m.log2 = 52)
    (hpos : 0 < m) (k : Nat) {e : Int} (he : -1074 ≤ e) :
    UnpackedFloat.roundWithAccuracy .binary64 sign (m * 2 ^ k) (e - k) .exact
      = .finite sign m e hpos := by
  have hshift : (e - (e - k)).toNat = k := by omega
  have hscale : e - k + k = e := by omega
  have htarget : Format.binary64.targetExponent (totalExponent m e) = e := by
    have h := targetExponent_eq hm 0 he
    rwa [Nat.pow_zero, Nat.mul_one, Int.natCast_zero, Int.sub_zero] at h
  have hnone : (e - e).toNat = 0 := by omega
  have hkept : UnpackedFloat.ExtendedMantissa.ofMantissaAndAccuracy m .exact >>> 0
      = UnpackedFloat.ExtendedMantissa.ofMantissaAndAccuracy m .exact := rfl
  have hrounded : (UnpackedFloat.ExtendedMantissa.ofMantissaAndAccuracy m .exact).roundedMantissa
      = m := rfl
  have hmantissa : (UnpackedFloat.ExtendedMantissa.ofMantissaAndAccuracy m .exact).mantissa
      = m := rfl
  simp only [UnpackedFloat.roundWithAccuracy, UnpackedFloat.shiftToTargetExponent,
    UnpackedFloat.shiftToExponent, targetExponent_eq hm k he, hshift, hscale, shiftRight_exact,
    hrounded, htarget, hnone, hkept, hmantissa, Int.natCast_zero, Int.add_zero]
  exact dif_neg hpos.ne'

/-- The word of a mantissa of fifty-three bits. Its leading bit carries into the exponent. -/
theorem toNat_pack {m : Nat} (hm : m.log2 = 52) (hpos : 0 < m) {e : Int} (hlower : -1074 ≤ e)
    (hupper : e ≤ 971) :
    (UnpackedFloat.pack .binary64 (.finite .positive m e hpos)).toNat
      = (e + 1074).toNat * 2 ^ 52 + m := by
  have hbounds := (Nat.log2_eq_iff hpos.ne').mp hm
  rw [pack_finite _ hpos (by omega), if_pos hm, UnpackedFloat.packComponents,
    BitVec.toNat_append, BitVec.toNat_append, ← Nat.shiftLeft_add_eq_or_of_lt (BitVec.isLt _),
    ← Nat.shiftLeft_add_eq_or_of_lt (BitVec.isLt _), Nat.shiftLeft_eq, Nat.shiftLeft_eq,
    BitVec.toNat_ofNat, BitVec.toNat_ofNat]
  change (0 * 2 ^ 11 + (e + 1075).toNat % 2 ^ 11) * 2 ^ 52 + m % 2 ^ 52 = _
  omega

/-- Such a mantissa can be taken out of the word again. -/
theorem unpack_pack {m : Nat} (hm : m.log2 = 52) (hpos : 0 < m) {e : Int} (hlower : -1074 ≤ e)
    (hupper : e ≤ 971) :
    UnpackedFloat.unpack .binary64 (UnpackedFloat.pack .binary64 (.finite .positive m e hpos))
      = .finite .positive m e hpos := by
  have hword := toNat_pack hm hpos hlower hupper
  have hbounds := (Nat.log2_eq_iff hpos.ne').mp hm
  refine (unpack_of_implied (by omega) (by omega) (by omega)).trans ?_
  simp only [UnpackedFloat.finite.injEq, true_and]
  omega

theorem log2_le {n : Nat} (hpos : 0 < n) (hn : n < 2 ^ 53) : n.log2 ≤ 52 := by
  have hlt := (Nat.log2_lt hpos.ne').mpr hn
  omega

/-- The mantissa of a natural number: as many zeros behind it as it needs. -/
theorem log2_mantissa {n : Nat} (hpos : 0 < n) (hn : n < 2 ^ 53) :
    (n * 2 ^ (52 - n.log2)).log2 = 52 := by
  have hlog := log2_le hpos hn
  have hbounds := (Nat.log2_eq_iff hpos.ne').mp rfl
  have hlower := Nat.mul_le_mul_right (2 ^ (52 - n.log2)) hbounds.1
  have hupper := Nat.mul_lt_mul_of_pos_right hbounds.2 (Nat.two_pow_pos (52 - n.log2))
  rw [← Nat.pow_add, show n.log2 + (52 - n.log2) = 52 by omega] at hlower
  rw [← Nat.pow_add, show n.log2 + 1 + (52 - n.log2) = 53 by omega] at hupper
  exact (Nat.log2_eq_iff (by omega)).mpr ⟨hlower, hupper⟩

theorem mantissa_pos {n : Nat} (hpos : 0 < n) : 0 < n * 2 ^ (52 - n.log2) :=
  Nat.mul_pos hpos (Nat.two_pow_pos _)

section

variable {n : Nat} (hpos : 0 < n) (hn : n < 2 ^ 53)
include hpos hn

/-- A natural number is made long enough, and that is all that happens to it. -/
theorem round_ofNat :
    UnpackedFloat.round .binary64 .positive n 0
      = .finite .positive (n * 2 ^ (52 - n.log2)) (n.log2 - 52) (mantissa_pos hpos) := by
  have hlog := log2_le hpos hn
  have htarget : Format.binary64.targetExponent (totalExponent n 0) = (n.log2 : Int) - 52 := by
    simp only [Format.targetExponent, totalExponent, Format.mantissaBits, Format.minExponent]
    omega
  have hshift : (0 - ((n.log2 : Int) - 52)).toNat = 52 - n.log2 := by omega
  have hscale : (0 : Int) - (52 - n.log2 : Nat) = (n.log2 : Int) - 52 := by omega
  have hexact := roundWithAccuracy_exact .positive (log2_mantissa hpos hn) (mantissa_pos hpos) 0
    (e := (n.log2 : Int) - 52) (by omega)
  rw [Nat.pow_zero, Nat.mul_one, Int.natCast_zero, Int.sub_zero] at hexact
  simp only [UnpackedFloat.round, UnpackedFloat.decreaseExponent, htarget, hshift, hscale,
    Nat.shiftLeft_eq]
  exact hexact

theorem unpack_toFloat :
    n.toUInt64.toFloat.toModel.unpack
      = .finite .positive (n * 2 ^ (52 - n.log2)) (n.log2 - 52) (mantissa_pos hpos) := by
  have hlog := log2_le hpos hn
  have hnormal : UnpackedFloat.ofUInt64 .binary64 n.toUInt64
      = UnpackedFloat.round .binary64 .positive n 0 := by
    have hsign : compare (n : Int) 0 = .gt := Int.compare_eq_gt.mpr (by omega)
    simp only [UnpackedFloat.ofUInt64, UnpackedFloat.ofNat, UnpackedFloat.ofInt,
      UnpackedFloat.normalize, toNat_toUInt64 (show n < 2 ^ 64 by omega), hsign, Int.toNat_natCast]
  change UnpackedFloat.unpack .binary64
    (UnpackedFloat.pack .binary64 (UnpackedFloat.ofUInt64 .binary64 n.toUInt64)) = _
  rw [hnormal, round_ofNat hpos hn]
  exact unpack_pack (log2_mantissa hpos hn) _ (by omega) (by omega)

/-- The scalar of a natural number has the bits of the number, and zeros behind them. -/
theorem toBitVec_ofNat :
    (ofNat n).toModel.toBits.toBitVec = UnpackedFloat.pack .binary64
      (.finite .positive (n * 2 ^ (52 - n.log2)) (n.log2 - 52) (mantissa_pos hpos)) := by
  let one : Scalar := Float.ofBits 0x3FF0000000000000
  have hone : one.toModel.unpack = .finite .positive (2 ^ 52) (-52) (by decide) :=
    (unpack_of_parts (show parts one = .finite false (2 ^ 52) 1022 by decide +kernel) _).1
  have hproduct : ofNat n = n.toUInt64.toFloat * one := dif_pos ⟨hn, by decide⟩
  have hexact := roundWithAccuracy_exact .positive (log2_mantissa hpos hn) (mantissa_pos hpos) 52
    (e := (n.log2 : Int) - 52) (by omega)
  rw [hproduct]
  change UnpackedFloat.pack .binary64
    (UnpackedFloat.mul .binary64 n.toUInt64.toFloat.toModel.unpack one.toModel.unpack) = _
  -- One has fifty-two zeros behind its leading bit, which are rounded away again.
  rw [unpack_toFloat hpos hn, hone]
  exact congrArg (UnpackedFloat.pack .binary64) hexact

theorem unpack_ofNat :
    (ofNat n).toModel.unpack
      = .finite .positive (n * 2 ^ (52 - n.log2)) (n.log2 - 52) (mantissa_pos hpos) := by
  have hlog := log2_le hpos hn
  rw [Float.Model.unpack, toBitVec_ofNat hpos hn]
  exact unpack_pack (log2_mantissa hpos hn) _ (by omega) (by omega)

theorem parts_ofNat :
    parts (ofNat n) = .finite false (n * 2 ^ (52 - n.log2)) (n.log2 + 1022) := by
  have hlog := log2_le hpos hn
  have hmantissa := (Nat.log2_eq_iff (mantissa_pos hpos).ne').mp (log2_mantissa hpos hn)
  have hword : (ofNat n).toBits.toNat = (n.log2 + 1022) * 2 ^ 52 + n * 2 ^ (52 - n.log2) := by
    have htoNat := toNat_pack (log2_mantissa hpos hn) (mantissa_pos hpos)
      (e := (n.log2 : Int) - 52) (by omega) (by omega)
    rw [← toBitVec_ofNat hpos hn, show ((n.log2 : Int) - 52 + 1074).toNat = n.log2 + 1022 by omega]
      at htoNat
    exact htoNat
  have hexponent : (ofNat n).toBits.toNat / Nat.pow 2 52 % 2048 = n.log2 + 1023 := by
    rw [hword]
    change _ / 2 ^ 52 % 2048 = _
    omega
  have hfraction : (ofNat n).toBits.toNat % Nat.pow 2 52 + Nat.pow 2 52
      = n * 2 ^ (52 - n.log2) := by
    rw [hword]
    change _ % 2 ^ 52 + 2 ^ 52 = _
    omega
  have hsign : ¬ Nat.pow 2 63 ≤ (ofNat n).toBits.toNat := by
    rw [hword]
    change ¬ 2 ^ 63 ≤ _
    omega
  simp only [parts, hexponent, hfraction, decide_eq_false hsign]
  rw [if_neg (by omega), if_neg (by omega)]
  rfl

end

/-- There are as many whole ones below the scalar of a number as the number says. -/
theorem wholeBelow_ofNat {n : Nat} (hn : n < 2 ^ 53) : wholeBelow (ofNat n) = n := by
  rcases Nat.eq_zero_or_pos n with rfl | hpos
  · decide +kernel
  have hlog := log2_le hpos hn
  obtain ⟨k, hk, hone⟩ := exists_unitsPerOne
  rw [wholeBelow, parts_ofNat hpos hn]
  simp only
  rw [hone, mul_pow_div_pow _ (by omega), show k - (n.log2 + 1022) = 52 - n.log2 by omega]
  exact Nat.mul_div_cancel n (Nat.two_pow_pos _)

/-- Numbers up to the largest result are in range. -/
theorem inRange_ofNat {n : Nat} (hn : n ≤ 2147483647) : (ofNat n).InRange := by
  rcases Nat.eq_zero_or_pos n with rfl | hpos
  · exact ⟨by decide +kernel, by decide +kernel, by decide +kernel⟩
  have hunpack := unpack_ofNat hpos (show n < 2 ^ 53 by omega)
  refine ⟨?_, ?_, ?_⟩
  · change (ofNat n).toModel.unpack.isFinite = true
    rw [hunpack]
    rfl
  · -- The lower end of the range is below zero, and the number is not.
    have hnegative : minResult < 0.0 := by decide +kernel
    rw [lt_iff_unpack, unpack_zero] at hnegative
    rw [lt_iff_unpack, hunpack]
    generalize minResult.toModel.unpack = lowest at hnegative ⊢
    rcases lowest with (_ | _) | _ | sign | ⟨_ | _, m, e, hm⟩ <;>
      simp [UnpackedFloat.compare] at hnegative ⊢
  · -- Scales are compared first. On the scale of the upper end the numbers themselves count.
    have hmax : parts maxResult = .finite false (2147483647 * 2 ^ 22) 1052 := by decide +kernel
    have hlog : n.log2 < 31 := (Nat.log2_lt hpos.ne').mpr (by omega)
    rw [lt_iff_unpack, hunpack, (unpack_of_parts hmax (by decide)).1, UnpackedFloat.compare,
      Option.some.injEq, Ordering.then_eq_lt, Int.compare_eq_lt, Int.compare_eq_eq,
      Nat.compare_eq_lt]
    rintro (hscale | ⟨hscale, hmantissa⟩)
    · omega
    · rw [show 52 - n.log2 = 22 by omega] at hmantissa
      omega

/-- Two numbers compare the other way round if they are exchanged. -/
theorem compare_swap (x y : UnpackedFloat) : y.compare x = (x.compare y).map Ordering.swap := by
  have hfinite : ∀ (m m' : Nat) (e e' : Int),
      (compare e' e).then (compare m' m) = ((compare e e').then (compare m m')).swap := by
    intro m m' e e'
    rw [Ordering.swap_then, Int.compare_swap, Nat.compare_swap]
  rcases x with (_ | _) | _ | sign | ⟨_ | _, m, e, hm⟩ <;>
    rcases y with (_ | _) | _ | sign' | ⟨_ | _, m', e', hm'⟩ <;>
      first
      | rfl
      | exact congrArg some (hfinite _ _ _ _)
      | exact congrArg (some ·.swap) (hfinite _ _ _ _)

/-- Of two finite scalars one is not above the other. -/
theorem le_of_not_lt {v w : Scalar} (hv : v.isFinite = true) (hw : w.isFinite = true)
    (h : ¬ w < v) : v ≤ w := by
  have hfinite : ∀ x y : UnpackedFloat, x.isFinite = true → y.isFinite = true →
      ∃ o, x.compare y = some o := by
    rintro (_ | _ | _ | ⟨_ | _, m, e, hm⟩) (_ | _ | _ | ⟨_ | _, m', e', hm'⟩) hx hy <;>
      first | exact ⟨_, rfl⟩ | exact Bool.noConfusion hx | exact Bool.noConfusion hy
  rcases hfinite _ _ hv hw with ⟨o, ho⟩
  rw [lt_iff_unpack, compare_swap, ho] at h
  change decide (v.toModel.unpack.le w.toModel.unpack = true) = true
  rw [decide_eq_true_eq, UnpackedFloat.le, ho]
  cases o with
  | lt | eq => rfl
  | gt => exact absurd rfl h

end Scalar

end TurtleGraphics
