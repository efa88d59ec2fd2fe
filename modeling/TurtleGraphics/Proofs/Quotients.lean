import Mathlib.Data.Set.Function
import Mathlib.Tactic.Ring
import TurtleGraphics.Proofs.Wholes
import TurtleGraphics.Random

/-!
# Random Numbers as Scalars

A program does not see the seed of the random numbers. It sees the seed divided by the
modulus, and the quotient of two scalars is rounded. So two seeds could give the same
number, and that the seeds do not repeat would not be enough for the numbers.

They do not. The quotient has fifty-three bits in front of the place where it is rounded,
and rounding adds at most one in the last of these (`Scalar.exists_roundWithAccuracy`). A
seed has no more than thirty-one bits. So the seed is found in its number again: multiplied
by the modulus, the number is closer to its own seed than to any other
(`Random.exists_unpack_value`).

## Theorems

* `Scalar.shiftToTargetExponent_self`, `Scalar.shiftToTargetExponent_exact`: Mantissas of
  fifty-three bits stay as they are.
* `Scalar.exists_roundWithAccuracy`: They are rounded to themselves or to the next one.
* `Scalar.divCore_of_log2`: The quotient of two of them.
* `Random.exists_quotient`: The bits of a quotient before it is rounded.
* `Random.exists_unpack_value`: How a seed is found in its number.
* `Random.value_injOn`: Different seeds have different numbers.
-/

namespace TurtleGraphics

namespace Scalar

open Float.Model

/-- A mantissa of fifty-three bits is on its scale already, however exact it is. -/
theorem shiftToTargetExponent_self {m : Nat} (hm : m.log2 = 52) {e : Int} (he : -1074 ≤ e)
    (accuracy : UnpackedFloat.Accuracy) :
    UnpackedFloat.shiftToTargetExponent .binary64 m e accuracy
      = (.ofMantissaAndAccuracy m accuracy, e) := by
  have htarget := targetExponent_eq hm 0 he
  rw [Nat.pow_zero, Nat.mul_one, Int.natCast_zero, Int.sub_zero] at htarget
  simp only [UnpackedFloat.shiftToTargetExponent, UnpackedFloat.shiftToExponent, htarget,
    Int.sub_self, Int.toNat_zero, Int.natCast_zero, Int.add_zero]
  rfl

/-- Zeros behind a mantissa of fifty-three bits are shifted out. -/
theorem shiftToTargetExponent_exact {m : Nat} (hm : m.log2 = 52) (k : Nat) {e : Int}
    (he : -1074 ≤ e) :
    UnpackedFloat.shiftToTargetExponent .binary64 (m * 2 ^ k) (e - k) .exact
      = (.ofMantissaAndAccuracy m .exact, e) := by
  have hshift : (e - (e - k)).toNat = k := by omega
  have hscale : e - k + k = e := by omega
  simp only [UnpackedFloat.shiftToTargetExponent, UnpackedFloat.shiftToExponent,
    targetExponent_eq hm k he, hshift, hscale, shiftRight_exact]

/-- Rounding adds at most one to a mantissa. -/
theorem roundedMantissa_bounds (m : Nat) (accuracy : UnpackedFloat.Accuracy) :
    let rounded := (UnpackedFloat.ExtendedMantissa.ofMantissaAndAccuracy m accuracy).roundedMantissa
    m ≤ rounded ∧ rounded ≤ m + 1 := by
  have hodd : m % 2 < 2 := Nat.mod_lt m Nat.two_pos
  rcases accuracy with _ | (_ | _ | _) <;>
    simp only [UnpackedFloat.ExtendedMantissa.ofMantissaAndAccuracy,
      UnpackedFloat.ExtendedMantissa.roundedMantissa, UnpackedFloat.ExtendedMantissa.accuracy,
      UnpackedFloat.Accuracy.roundToNearestEven] <;> omega

/-- A mantissa of fifty-three bits is rounded to itself or to the next one. -/
theorem exists_roundWithAccuracy (sign : UnpackedFloat.Sign) {m : Nat} (hm : m.log2 = 52)
    {e : Int} (he : -1074 ≤ e) (accuracy : UnpackedFloat.Accuracy) :
    ∃ (r k : Nat) (hr : 0 < r),
      UnpackedFloat.roundWithAccuracy .binary64 sign m e accuracy = .finite sign r (e + k) hr ∧
        r.log2 = 52 ∧ k ≤ 1 ∧ m ≤ r * 2 ^ k ∧ r * 2 ^ k ≤ m + 1 := by
  have hpos : m ≠ 0 := by
    rintro rfl
    exact absurd hm (by decide)
  have hbounds := (Nat.log2_eq_iff hpos).mp hm
  -- The next mantissa is one bit longer if all bits were ones, and then it ends in a zero.
  have hsplit : ∃ r k : Nat, k ≤ 1 ∧ r.log2 = 52 ∧ 0 < r ∧ m ≤ r * 2 ^ k ∧ r * 2 ^ k ≤ m + 1 ∧
      (UnpackedFloat.ExtendedMantissa.ofMantissaAndAccuracy m accuracy).roundedMantissa
        = r * 2 ^ k := by
    have hrounded := roundedMantissa_bounds m accuracy
    generalize (UnpackedFloat.ExtendedMantissa.ofMantissaAndAccuracy m accuracy).roundedMantissa
      = rounded at hrounded ⊢
    by_cases hlong : rounded = 2 ^ 53
    · rw [hlong] at hrounded ⊢
      exact ⟨2 ^ 52, 1, Nat.le_refl 1, Nat.log2_two_pow, by decide, hrounded.1, hrounded.2, rfl⟩
    · refine ⟨rounded, 0, Nat.zero_le 1, ?_, by omega, ?_⟩
      · exact (Nat.log2_eq_iff (by omega)).mpr ⟨by omega, by omega⟩
      · rw [Nat.pow_zero, Nat.mul_one]
        exact ⟨hrounded.1, hrounded.2, rfl⟩
  rcases hsplit with ⟨r, k, hk, hlog, hr, hlower, hupper, hrounded⟩
  have hexact := shiftToTargetExponent_exact hlog k (e := e + k) (by omega)
  rw [show e + (k : Int) - k = e by omega] at hexact
  refine ⟨r, k, hr, ?_, hlog, hk, hlower, hupper⟩
  simp only [UnpackedFloat.roundWithAccuracy, shiftToTargetExponent_self hm he accuracy, hrounded,
    hexact]
  exact dif_neg hr.ne'

/-- The quotient of two mantissas of fifty-three bits, with as many bits. -/
theorem divCore_of_log2 {m n : Nat} (hm : m.log2 = 52) (hn : n.log2 = 52) {e f : Int}
    (h : -1021 ≤ e - f) :
    UnpackedFloat.divCore .binary64 m e n f
      = ((m <<< 53) / n, e - f - 53, UnpackedFloat.accuracyOfFraction ((m <<< 53) % n) n) := by
  have htarget : min (e - f) (Format.binary64.targetExponent
      (totalExponent m e - totalExponent n f)) = e - f - 53 := by
    simp only [Format.targetExponent, totalExponent, hm, hn, Format.mantissaBits,
      Format.minExponent]
    omega
  have hshift : (e - f - (e - f - 53)).toNat = 53 := by omega
  simp only [UnpackedFloat.divCore, htarget, hshift]

end Scalar

namespace Random

open Float.Model

/-- A seed below the modulus is below it on the scale of the modulus as well. -/
theorem scaled_lt {s : Nat} (hpos : 0 < s) (hs : s < modulus) :
    s.log2 ≤ 30 ∧ s * 2 ^ (30 - s.log2) < modulus := by
  have hlog : s.log2 < 31 := (Nat.log2_lt hpos.ne').mpr (Nat.lt_trans hs (by decide))
  have hbounds := (Nat.log2_eq_iff hpos.ne').mp rfl
  refine ⟨by omega, ?_⟩
  by_cases htop : s.log2 = 30
  · rw [htop, Nat.sub_self, Nat.pow_zero, Nat.mul_one]
    exact hs
  · -- There is a zero behind the seed, and the modulus is odd.
    have hnext : (s + 1) * 2 ^ (30 - s.log2) ≤ 2 ^ 31 := by
      refine Nat.le_trans (Nat.mul_le_mul_right _ hbounds.2) (Nat.le_of_eq ?_)
      rw [← Nat.pow_add]
      congr 1
      omega
    have htwo : 2 ^ 1 ≤ 2 ^ (30 - s.log2) := Nat.pow_le_pow_right Nat.two_pos (by omega)
    rw [Nat.add_mul] at hnext
    unfold modulus
    omega

/-- The quotient of a seed and the modulus before it is rounded: fifty-three bits of it, and
    on which scale they are. -/
theorem exists_quotient {s : Nat} (hpos : 0 < s) (hs : s < modulus) :
    ∃ q accuracy, q.log2 = 52 ∧ q * modulus ≤ s * 2 ^ (83 - s.log2) ∧
      s * 2 ^ (83 - s.log2) < (q + 1) * modulus ∧
      UnpackedFloat.divCore .binary64 (s * 2 ^ (52 - s.log2)) (s.log2 - 52)
        (modulus * 2 ^ 22) (-22) = (q, (s.log2 : Int) - 83, accuracy) := by
  rcases scaled_lt hpos hs with ⟨hlog, hlt⟩
  have hmodulus : 0 < modulus := by decide
  have hscaled : s * 2 ^ (83 - s.log2) = s * 2 ^ (30 - s.log2) * 2 ^ 53 := by
    rw [Nat.mul_assoc, ← Nat.pow_add]
    congr 2
    omega
  have hlarge : 2 ^ 30 ≤ s * 2 ^ (30 - s.log2) := by
    have hbounds := (Nat.log2_eq_iff hpos.ne').mp rfl
    have hle := Nat.mul_le_mul_right (2 ^ (30 - s.log2)) hbounds.1
    rwa [← Nat.pow_add, show s.log2 + (30 - s.log2) = 30 by omega] at hle
  refine ⟨s * 2 ^ (83 - s.log2) / modulus, UnpackedFloat.accuracyOfFraction
    (s * 2 ^ (83 - s.log2) * 2 ^ 22 % (modulus * 2 ^ 22)) (modulus * 2 ^ 22),
    ?_, Nat.div_mul_le_self _ _, ?_, ?_⟩
  · -- The seed is above half the modulus and below it, once both have thirty-one bits.
    have hlower : 2 ^ 52 ≤ s * 2 ^ (83 - s.log2) / modulus := by
      rw [Nat.le_div_iff_mul_le hmodulus, hscaled]
      unfold modulus
      omega
    have hupper : s * 2 ^ (83 - s.log2) / modulus < 2 ^ 53 := by
      rw [Nat.div_lt_iff_lt_mul hmodulus, hscaled, Nat.mul_comm]
      exact Nat.mul_lt_mul_of_pos_left hlt (Nat.two_pow_pos 53)
    exact (Nat.log2_eq_iff (by omega)).mpr ⟨hlower, hupper⟩
  · exact Nat.lt_mul_of_div_lt (Nat.lt_succ_self _) hmodulus
  · have hmantissa : (s * 2 ^ (52 - s.log2)).log2 = 52 :=
      Scalar.log2_mantissa hpos (Nat.lt_trans hs (by decide))
    have hdividend : (s * 2 ^ (52 - s.log2)) <<< 53 = s * 2 ^ (83 - s.log2) * 2 ^ 22 := by
      rw [Nat.shiftLeft_eq, Nat.mul_assoc, Nat.mul_assoc, ← Nat.pow_add, ← Nat.pow_add]
      congr 2
      omega
    rw [Scalar.divCore_of_log2 hmantissa (by decide +kernel) (by omega), hdividend,
      Nat.mul_div_mul_right _ _ (Nat.two_pow_pos 22),
      show (s.log2 : Int) - 52 - -22 - 53 = s.log2 - 83 by omega]

/-- The scalar of a seed, and how the seed is found in it again. -/
theorem exists_unpack_value {s : Nat} (hpos : 0 < s) (hs : s < modulus) :
    ∃ (r : Nat) (e : Int) (hr : 0 < r),
      (value ⟨s⟩).toModel.unpack = .finite .positive r e hr ∧
        (r * 2 ^ (e + 83).toNat * modulus + 2 ^ 82) / 2 ^ 83 = s := by
  have hlog := (scaled_lt hpos hs).1
  rcases exists_quotient hpos hs with ⟨q, accuracy, hq, hlower, hupper, hdiv⟩
  rcases Scalar.exists_roundWithAccuracy .positive hq (e := (s.log2 : Int) - 83) (by omega)
    accuracy with ⟨r, k, hr, hround, hlog', hk, hge, hle⟩
  have hseed : (Scalar.ofNat s).toModel.unpack = _ :=
    Scalar.unpack_ofNat hpos (Nat.lt_trans hs (by decide))
  have hmodulus : (Scalar.ofNat modulus).toModel.unpack
      = .finite .positive (modulus * 2 ^ 22) (-22) (by decide) :=
    Scalar.unpack_ofNat (n := modulus) (by decide) (by decide)
  refine ⟨r, (s.log2 : Int) - 83 + k, hr, ?_, ?_⟩
  · change UnpackedFloat.unpack .binary64 (UnpackedFloat.pack .binary64
      (UnpackedFloat.div .binary64 (Scalar.ofNat s).toModel.unpack
        (Scalar.ofNat modulus).toModel.unpack)) = _
    have hquotient : UnpackedFloat.div .binary64 (Scalar.ofNat s).toModel.unpack
        (Scalar.ofNat modulus).toModel.unpack
          = .finite .positive r ((s.log2 : Int) - 83 + k) hr := by
      rw [hseed, hmodulus]
      simp only [UnpackedFloat.div, hdiv]
      exact hround
    rw [hquotient]
    exact Scalar.unpack_pack hlog' hr (by omega) (by omega)
  · have hscale : ((s.log2 : Int) - 83 + k + 83).toNat = k + s.log2 := by omega
    have hunits : r * 2 ^ ((s.log2 : Int) - 83 + k + 83).toNat * modulus
        = r * 2 ^ k * modulus * 2 ^ s.log2 := by
      rw [hscale, Nat.pow_add]
      ring
    have hwhole : s * 2 ^ (83 - s.log2) * 2 ^ s.log2 = s * 2 ^ 83 := by
      rw [Nat.mul_assoc, ← Nat.pow_add, show 83 - s.log2 + s.log2 = 83 by omega]
    -- One more or less in the last place is less than half a seed.
    have hplace : modulus * 2 ^ s.log2 < 2 ^ 82 := by
      refine Nat.lt_of_le_of_lt (Nat.mul_le_mul_left _ (Nat.pow_le_pow_right Nat.two_pos hlog)) ?_
      decide
    have hmost : r * 2 ^ k * modulus * 2 ^ s.log2 ≤ s * 2 ^ 83 + modulus * 2 ^ s.log2 := by
      rw [← hwhole, ← Nat.add_mul]
      refine Nat.mul_le_mul_right _ ?_
      calc r * 2 ^ k * modulus ≤ (q + 1) * modulus := Nat.mul_le_mul_right _ hle
        _ = q * modulus + modulus := by ring
        _ ≤ s * 2 ^ (83 - s.log2) + modulus := Nat.add_le_add_right hlower _
    have hleast : s * 2 ^ 83 ≤ r * 2 ^ k * modulus * 2 ^ s.log2 + modulus * 2 ^ s.log2 := by
      rw [← hwhole, ← Nat.add_mul]
      refine Nat.mul_le_mul_right _ ?_
      calc s * 2 ^ (83 - s.log2) ≤ (q + 1) * modulus := hupper.le
        _ = q * modulus + modulus := by ring
        _ ≤ r * 2 ^ k * modulus + modulus :=
          Nat.add_le_add_right (Nat.mul_le_mul_right _ hge) _
    rw [hunits]
    omega

/-- Different seeds have different scalars. -/
theorem value_injOn : Set.InjOn value {r | 0 < r.seed ∧ r.seed < modulus} := by
  rintro ⟨s⟩ ⟨hpos, hs⟩ ⟨s'⟩ ⟨hpos', hs'⟩ heq
  rcases exists_unpack_value hpos hs with ⟨r, e, hr, hunpack, hseed⟩
  rcases exists_unpack_value hpos' hs' with ⟨r', e', hr', hunpack', hseed'⟩
  rw [heq, hunpack'] at hunpack
  cases hunpack
  exact congrArg Random.mk (hseed.symm.trans hseed')

end Random

end TurtleGraphics
