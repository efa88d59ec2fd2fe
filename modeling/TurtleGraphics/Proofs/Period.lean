import Mathlib.Data.ZMod.Units
import Mathlib.GroupTheory.OrderOfElement
import Mathlib.Tactic.NormNum.Prime
import Mathlib.Tactic.ReduceModChar
import TurtleGraphics.Proofs.Quotients

/-!
# The Period of the Random Numbers

Each draw multiplies the seed by a fixed number modulo `2 ^ 31 - 1`, and the first seed is
one. So the seeds are the powers of the multiplier, and how long it takes until one of them
comes again is the order of the multiplier. It is the largest that there can be: all
`2 ^ 31 - 2` seeds other than zero come up, each of them once, before the first one comes
again.

The order is found without a list of powers. A number whose power with exponent `n` is one
has the order `n` if no power with exponent `n / q` is one, for the prime factors `q` of
`n`. There are seven of these, and the powers are computed by squaring.

## Main definitions

* `Random.factors`: The prime factors of the number of seeds.

## Theorems

* `Random.seed_after`: Seeds are powers of the multiplier.
* `Random.orderOf_multiplier`: The order of the multiplier.
* `Random.seed_after_eq_iff`: When a seed comes again.
* `Random.range_seed_after`: All seeds come up.
* `Random.nodup_draws`: The numbers drawn within a period are different.
* `Random.full_period`: The generator goes through all seeds before it repeats one.
-/

namespace TurtleGraphics

namespace Random

/-- One draw more is a draw from the state that the others have left. -/
theorem after_succ (r : Random) (n : Nat) : r.after (n + 1) = (r.after n).next.2 := by
  induction n generalizing r with
  | zero => rfl
  | succ n ih =>
      rw [after, ih]
      rfl

/-- The seed after so many draws is a power of the multiplier. -/
theorem seed_after (n : Nat) : (after {} n).seed = multiplier ^ n % modulus := by
  induction n with
  | zero => rfl
  | succ n ih =>
      rw [after_succ]
      change (after {} n).seed * multiplier % modulus = _
      rw [ih, Nat.mod_mul_mod, Nat.pow_succ]

theorem seed_after_lt (n : Nat) : (after {} n).seed < modulus := by
  rw [seed_after]
  exact Nat.mod_lt _ (by decide)

/-- The seed never becomes zero, from where it would not come back. -/
theorem seed_after_pos (n : Nat) : 0 < (after {} n).seed := by
  rw [seed_after]
  refine Nat.pos_of_ne_zero fun hzero => ?_
  have hcoprime : Nat.Coprime modulus (multiplier ^ n) := Nat.Coprime.pow_right n (by decide)
  exact absurd (hcoprime.eq_one_of_dvd (Nat.dvd_of_mod_eq_zero hzero)) (by decide)

/-- The prime factors of the number of seeds, as often as they divide it. -/
def factors : List Nat := [2, 3, 3, 7, 11, 31, 151, 331]

theorem prod_factors : factors.prod = modulus - 1 := by decide

theorem prime_of_mem_factors {q : Nat} (h : q ∈ factors) : q.Prime := by
  simp only [factors, List.mem_cons, List.not_mem_nil, or_false] at h
  rcases h with rfl | rfl | rfl | rfl | rfl | rfl | rfl | rfl <;> norm_num

theorem mem_factors_of_dvd {q : Nat} (hq : q.Prime) (h : q ∣ modulus - 1) : q ∈ factors := by
  rw [← prod_factors] at h
  exact mem_list_primes_of_dvd_prod hq.prime (fun p hp => (prime_of_mem_factors hp).prime) h

theorem pow_multiplier_eq_one : (multiplier : ZMod modulus) ^ (modulus - 1) = 1 := by
  have hpower : (48271 : ZMod 2147483647) ^ 2147483646 = 1 := by reduce_mod_char
  exact hpower

theorem pow_multiplier_ne_one {q : Nat} (h : q ∈ factors) :
    (multiplier : ZMod modulus) ^ ((modulus - 1) / q) ≠ 1 := by
  change (48271 : ZMod 2147483647) ^ (2147483646 / q) ≠ 1
  simp only [factors, List.mem_cons, List.not_mem_nil, or_false] at h
  -- In each case the exponent is divided, then the power is reduced to its remainder.
  rcases h with rfl | rfl | rfl | rfl | rfl | rfl | rfl | rfl <;>
    simp only [Nat.reduceDiv] <;> reduce_mod_char <;> decide

/-- The multiplier has the largest order that there can be. -/
theorem orderOf_multiplier : orderOf (multiplier : ZMod modulus) = modulus - 1 :=
  orderOf_eq_of_pow_and_pow_div_prime (by decide) pow_multiplier_eq_one fun _ hq h =>
    pow_multiplier_ne_one (mem_factors_of_dvd hq h)

/-- A seed comes again after a whole number of periods, and only then. -/
theorem seed_after_eq_iff (i j : Nat) :
    (after {} i).seed = (after {} j).seed ↔ i ≡ j [MOD modulus - 1] := by
  -- The multiplier can be divided by, and in a group powers are equal modulo the order.
  let u : (ZMod modulus)ˣ := Units.ofPowEqOne _ _ pow_multiplier_eq_one (by decide)
  have horder : orderOf u = modulus - 1 := by
    rw [← orderOf_units]
    exact orderOf_multiplier
  have hpowers : u ^ i = u ^ j ↔
      (multiplier : ZMod modulus) ^ i = (multiplier : ZMod modulus) ^ j := by
    rw [← Units.val_inj, Units.val_pow_eq_pow_val, Units.val_pow_eq_pow_val]
    rfl
  rw [seed_after, seed_after, ← ZMod.natCast_eq_natCast_iff', Nat.cast_pow, Nat.cast_pow,
    ← hpowers, pow_eq_pow_iff_modEq, horder]

/-- Within a period all seeds are different. -/
theorem eq_of_seed_after_eq {i j : Nat} (hi : i < modulus - 1) (hj : j < modulus - 1)
    (h : (after {} i).seed = (after {} j).seed) : i = j :=
  ((seed_after_eq_iff i j).mp h).eq_of_lt_of_lt hi hj

/-- All seeds other than zero come up: they are as many as there are draws in a period. -/
theorem range_seed_after :
    Set.range (fun n => (after {} n).seed) = Set.Icc 1 (modulus - 1) := by
  have hmaps : ∀ n, (after {} n).seed ∈ Set.Icc 1 (modulus - 1) := fun n =>
    ⟨seed_after_pos n, Nat.le_pred_of_lt (seed_after_lt n)⟩
  have hinj : Set.InjOn (fun n => (after {} n).seed) (Finset.range (modulus - 1)) :=
    fun i hi j hj => eq_of_seed_after_eq (Finset.mem_range.mp hi) (Finset.mem_range.mp hj)
  have hcard : (Finset.Icc 1 (modulus - 1)).card ≤ (Finset.range (modulus - 1)).card := by
    rw [Nat.card_Icc, Finset.card_range, Nat.add_sub_cancel]
  refine Set.Subset.antisymm (Set.range_subset_iff.mpr hmaps) fun s hs => ?_
  rcases Finset.surjOn_of_injOn_of_card_le _
    (fun n _ => Finset.mem_coe.mpr (Finset.mem_Icc.mpr (hmaps n))) hinj hcard
    (Finset.mem_coe.mpr (Finset.mem_Icc.mpr hs)) with ⟨n, -, hn⟩
  exact ⟨n, hn⟩

theorem draws_eq (r : Random) (n : Nat) :
    r.draws n = (List.range n).map fun k => (r.after (k + 1)).value := by
  induction n generalizing r with
  | zero => rfl
  | succ n ih =>
      simp only [draws, ih, List.range_succ_eq_map, List.map_cons, List.map_map,
        Function.comp_def, after]

/-- The numbers drawn within a period are different. -/
theorem nodup_draws : (draws {} (modulus - 1)).Nodup := by
  rw [draws_eq]
  refine List.Nodup.map_on (fun i hi j hj hvalue => ?_) List.nodup_range
  have hseed : after {} (i + 1) = after {} (j + 1) :=
    value_injOn ⟨seed_after_pos _, seed_after_lt _⟩ ⟨seed_after_pos _, seed_after_lt _⟩ hvalue
  -- One draw earlier the seeds were the same already.
  have hmod : i + 1 ≡ j + 1 [MOD modulus - 1] :=
    (seed_after_eq_iff _ _).mp (congrArg seed hseed)
  exact (Nat.ModEq.add_right_cancel' 1 hmod).eq_of_lt_of_lt (List.mem_range.mp hi)
    (List.mem_range.mp hj)

/-- The generator has a full period. After any number of draws the seed is a power of the
    multiplier, it is not zero, and the product that the next draw takes a remainder of fits
    into 64 bits. Two seeds are equal exactly if there is a whole number of periods between
    them. All seeds come up, and no number is drawn twice before the period is over. -/
theorem full_period :
    (∀ n, (after {} n).seed = 48271 ^ n % (2 ^ 31 - 1) ∧ 1 ≤ (after {} n).seed ∧
        (after {} n).seed ≤ 2 ^ 31 - 2 ∧ (after {} n).seed * 48271 < 2 ^ 64) ∧
      (∀ i j, (after {} i).seed = (after {} j).seed ↔ i ≡ j [MOD 2 ^ 31 - 2]) ∧
      Set.range (fun n => (after {} n).seed) = Set.Icc 1 (2 ^ 31 - 2) ∧
      (draws {} (2 ^ 31 - 2)).Nodup := by
  refine ⟨fun n => ⟨seed_after n, seed_after_pos n, ?_, ?_⟩, seed_after_eq_iff, range_seed_after,
    nodup_draws⟩
  · exact Nat.le_pred_of_lt (seed_after_lt n)
  · exact Nat.lt_trans (Nat.mul_lt_mul_of_pos_right (seed_after_lt n) (by decide)) (by decide)

end Random

end TurtleGraphics
