import Argand.Proofs.ExactArithmetic
import Argand.Complex.Power

namespace Argand

section loop

theorem mulPow_zero {A : Type} [Mul A] (acc base : A) : mulPow acc base 0 = acc := by
  rw [mulPow, if_pos rfl]

/-- One turn of the loop. After the last digit the square would not be used. -/
theorem mulPow_step {A : Type} [Mul A] (acc base : A) {n : Nat} (h : n ≠ 0) :
    mulPow acc base n =
      mulPow (if n % 2 = 1 then acc * base else acc) (base * base) (n / 2) := by
  by_cases last : n / 2 = 0
  · rw [last, mulPow_zero, mulPow, if_neg h]
    exact if_pos last
  · rw [mulPow, if_neg h]
    exact if_neg last

variable {M : Type} [Monoid M]

/-- The binary digit at the end and the digits before it, which count for the squared base. -/
theorem digit_mul_square_pow (acc base : M) (n : Nat) :
    (if n % 2 = 1 then acc * base else acc) * (base * base) ^ (n / 2) = acc * base ^ n := by
  have square : (base * base) ^ (n / 2) = base ^ (2 * (n / 2)) := by rw [pow_mul, pow_two]
  rw [square]
  split
  next odd =>
    have digits : n = 2 * (n / 2) + 1 := by omega
    rw [mul_assoc, ← pow_succ', ← digits]
  next even =>
    have digits : n = 2 * (n / 2) := by omega
    rw [← digits]

/-- The accumulator times the power that is left is the same after every turn. -/
theorem mulPow_eq (acc base : M) (n : Nat) : mulPow acc base n = acc * base ^ n := by
  induction n using Nat.strong_induction_on generalizing acc base with
  | _ n ih =>
    by_cases h : n = 0
    · rw [h, mulPow_zero, pow_zero, mul_one]
    · rw [mulPow_step acc base h, ih (n / 2) (by omega), digit_mul_square_pow]

end loop

namespace Complex

open Exact

variable {K : Type} [Field K] [LinearOrder K] [IsStrictOrderedRing K] [FloorRing K]

theorem mulPow_one (base : Complex K) (n : Nat) : mulPow 1 base n = base ^ n :=
  (mulPow_eq 1 base n).trans (one_mul _)

theorem powInt_eq_zpow (base : Complex K) (n : ℤ) : powInt base n = base ^ n := by
  by_cases negative : n < 0
  · have digits : n = -(n.natAbs : ℤ) := by omega
    have inverted : powInt base n = (base ^ n.natAbs)⁻¹ := by
      rw [powInt, if_pos negative, mulPow_one]
      rfl
    rw [inverted, ← zpow_natCast, ← zpow_neg, ← digits]
  · have digits : n = (n.natAbs : ℤ) := by omega
    have kept : powInt base n = base ^ n.natAbs := by
      rw [powInt, if_neg negative, mulPow_one]
    rw [kept, ← zpow_natCast, ← digits]

/-- An integer is recognised, up to the bound. -/
theorem integer?_intCast {bound : Nat} {n : ℤ} (h : n.natAbs ≤ bound) :
    Scalar.integer? bound (n : K) = some n := by
  have size : Scalar.abs (n : K) = (n.natAbs : K) := by
    rw [Nat.cast_natAbs, Int.cast_abs]
    rfl
  have floor : Scalar.truncate (Scalar.abs (n : K)) = n.natAbs := by
    rw [size]
    exact Nat.floor_natCast _
  have accepted : (decide (n.natAbs ≤ bound) && ((n.natAbs : K) == Scalar.abs (n : K))) = true := by
    rw [size]
    exact Bool.and_eq_true_iff.mpr ⟨decide_eq_true h, decide_eq_true rfl⟩
  unfold Scalar.integer?
  rw [floor]
  refine (if_pos accepted).trans (congrArg some ?_)
  by_cases negative : n < 0
  · have below : (n : K) < 0 := Int.cast_lt_zero.mpr negative
    exact (if_pos below).trans (by omega)
  · have above : ¬ (n : K) < 0 := mt Int.cast_lt_zero.mp negative
    exact (if_neg above).trans (by omega)

/-- The power with an integer exponent, reached through a complex one. -/
theorem pow_intCast [Elementary K] (base : Complex K) {n : ℤ} (h : n.natAbs ≤ maxIntegerExponent) :
    pow base (ofReal (n : K)) = powInt base n := by
  have real : ((ofReal (n : K)).im == 0) = true := decide_eq_true rfl
  have exponent : (ofReal (n : K)).re = (n : K) := rfl
  rw [pow, if_pos real, exponent, integer?_intCast h]

/-- Over exact numbers the loop ends with the power, the function returns the power with its sign,
and a complex exponent that is an integer of moderate size gives no other power. -/
theorem powInt_power (base : Complex K) (n : ℤ) :
    mulPow 1 base n.natAbs = base ^ n.natAbs ∧
      (0 ≤ n → powInt base n = base ^ n.natAbs) ∧
      (n < 0 → base ≠ 0 → powInt base n * base ^ n.natAbs = 1) ∧
      (n.natAbs ≤ 1024 → ∀ [Elementary K], pow base (ofReal (n : K)) = powInt base n) := by
  refine ⟨mulPow_one base _, fun nonneg => ?_, fun negative nonzero => ?_, fun small _ => ?_⟩
  · have digits : n = (n.natAbs : ℤ) := by omega
    rw [powInt_eq_zpow, ← zpow_natCast, ← digits]
  · have digits : n + n.natAbs = 0 := by omega
    rw [powInt_eq_zpow, ← zpow_natCast, ← zpow_add₀ nonzero, digits, zpow_zero]
  · exact pow_intCast base small

theorem unit_pow_of_dvd {n : Nat} (h : 4 ∣ n) : (unit : Complex K) ^ n = 1 := by
  obtain ⟨k, rfl⟩ := h
  have fourth : (unit : Complex K) ^ 4 = 1 := by
    have square : (unit : Complex K) * unit = -1 := by
      refine ext_parts ?_ ?_
      · change (0 : K) * 0 - 1 * 1 = -1
        ring
      · change (0 : K) * 1 + 1 * 0 = -0
        ring
    rw [show 4 = 2 * 2 from rfl, pow_mul, pow_two unit, square, neg_one_sq]
  rw [pow_mul, fourth, one_pow]

/-- The least exponent of a machine word, whose magnitude is not one of its numbers. -/
theorem powInt_power_least :
    powInt (unit : Complex ℚ) (-2147483648) = 1 ∧
      ∀ [Elementary ℚ], pow (unit : Complex ℚ) (ofReal (-1024)) = 1 := by
  have nonzero : (unit : Complex ℚ) ≠ 0 := fun h => one_ne_zero (congrArg im h)
  have least := (powInt_power (unit : Complex ℚ) (-2147483648)).2.2.1 (by decide) nonzero
  have bound := (powInt_power (unit : Complex ℚ) (-1024)).2.2.1 (by decide) nonzero
  rw [unit_pow_of_dvd (by decide), mul_one] at least bound
  refine ⟨least, fun {_} => ?_⟩
  have moderate := (powInt_power (unit : Complex ℚ) (-1024)).2.2.2 (by decide)
  push_cast at moderate
  rw [moderate, bound]

end Complex
end Argand
