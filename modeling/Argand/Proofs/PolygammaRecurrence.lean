import Argand.Proofs.IntegerPower
import Argand.Proofs.RealAxis
import Argand.Complex.Polygamma

open scoped Nat

namespace Argand.Complex

open Exact

variable {K : Type} [Field K] [LinearOrder K] [FloorRing K]

theorem risingProduct_succ (start count : Nat) : (risingProduct start (count + 1) : K) =
    risingProduct start count * ((start + count : Nat) : K) := by
  unfold risingProduct
  rw [List.range'_concat, List.foldl_append, Nat.one_mul]
  rfl

theorem risingProduct_eq (start count : Nat) :
    (risingProduct start count : K) = start.ascFactorial count := by
  induction count with
  | zero => exact Nat.cast_one.symm
  | succ count ih =>
    rw [risingProduct_succ, ih, Nat.ascFactorial_succ, Nat.mul_comm]
    exact (Nat.cast_mul _ _).symm

theorem factorial_eq (n : Nat) : (factorial n : K) = n ! := by
  rw [factorial, risingProduct_eq, Nat.one_ascFactorial]

theorem alternatingSign_eq (n : Nat) : (alternatingSign n : K) = (-1) ^ n := by
  unfold alternatingSign
  split
  next even => rw [Even.neg_one_pow (Nat.even_iff.mpr even)]
  next odd => rw [Odd.neg_one_pow (Nat.odd_iff.mpr (by omega))]

theorem add_natCast_succ (z : Complex K) (j : Nat) :
    z + ((j + 1 : ℕ) : Complex K) = z + 1 + (j : Complex K) := by
  push_cast
  ring

variable [IsStrictOrderedRing K]

theorem powInt_neg_succ (z : Complex K) (n : Nat) :
    powInt z (-((n : ℤ) + 1)) = (z ^ (n + 1))⁻¹ := by
  have exponent : -((n : ℤ) + 1) = -((n + 1 : ℕ) : ℤ) := by
    push_cast
    rfl
  rw [powInt_eq_zpow, exponent, zpow_neg, zpow_natCast]

theorem shiftTerm_eq (n : Nat) (z : Complex K) :
    shiftTerm n z = (-1) ^ n * (n ! : Complex K) / z ^ (n + 1) := by
  have factor : realAxis (alternatingSign n * factorial n : K) = (-1) ^ n * (n ! : Complex K) := by
    rw [alternatingSign_eq, factorial_eq, map_mul, map_pow, map_neg, map_one, map_natCast]
  rw [shiftTerm, mul_real, factor, powInt_neg_succ, div_eq_inv_mul]

/-- The steps of one that take a number to zero or beyond. -/
theorem ceil_eq_succ {x : K} (h : 0 < x) : ⌈x⌉₊ = ⌈x - 1⌉₊ + 1 := by
  have pos := Nat.ceil_pos.mpr h
  rw [Nat.ceil_sub_one]
  omega

/-- The steps go on until the real part is at the threshold, or none is left, and take off the terms
of the points that they leave. -/
theorem shiftUp_eq (n steps : Nat) (threshold : K) (z acc : Complex K) :
    shiftUp n threshold steps z acc =
      (z + (min steps ⌈threshold - z.re⌉₊ : ℕ),
        acc - ∑ j ∈ Finset.range (min steps ⌈threshold - z.re⌉₊),
          shiftTerm n (z + (j : Complex K))) := by
  induction steps generalizing z acc with
  | zero => simp [shiftUp]
  | succ steps ih =>
    rw [shiftUp]
    split
    next below =>
      have step : z + (1 : K) = z + (1 : Complex K) := by rw [add_real, map_one]
      have left : ⌈threshold - z.re⌉₊ = ⌈threshold - (z + 1).re⌉₊ + 1 := by
        rw [ceil_eq_succ (sub_pos.mpr below), add_re, one_re, sub_sub]
      rw [step, ih, left, Nat.add_min_add_right, Finset.sum_range_succ']
      simp only [add_natCast_succ, Nat.cast_zero, add_zero]
      exact Prod.ext rfl ((sub_sub acc _ _).trans (congrArg (acc - ·) (add_comm _ _)))
    next reached =>
      have none : ⌈threshold - z.re⌉₊ = 0 :=
        Nat.ceil_eq_zero.mpr (sub_nonpos.mpr (not_lt.mp reached))
      simp [none]

variable [Elementary K]

/-- An argument that is not too far to the left is taken to the asymptotic region. -/
theorem polygamma_eq (z : Complex K) {n : Nat} (order : n ≤ maxPolygammaOrder)
    (near : 10 + n - z.re ≤ 10000) :
    polygamma z n = asymptotic n (z + (⌈10 + n - z.re⌉₊ : Complex K)) -
      ∑ j ∈ Finset.range ⌈10 + n - z.re⌉₊, shiftTerm n (z + (j : Complex K)) := by
  have finite : ¬ (!z.isFinite) = true := Bool.false_ne_true
  have threshold : (10.0 : K) + (n : K) = 10 + n := by norm_num
  have close : ¬ ((maxPolygammaShifts : ℕ) : K) < 10 + n - z.re := by
    rw [maxPolygammaShifts]
    exact_mod_cast not_lt.mpr near
  have enough : min maxPolygammaShifts ⌈10 + n - z.re⌉₊ = ⌈10 + n - z.re⌉₊ :=
    min_eq_right (Nat.ceil_le.mpr (not_lt.mp close))
  rw [polygamma, if_neg finite]
  simp only [min_eq_left order, threshold]
  rw [if_neg close]
  simp only [shiftUp_eq, enough]
  rw [zero_sub, neg_add_eq_sub]

/-- Between the poles no step divides by zero, and the value is that of the point one to the right
less one term. What is left of the loop and the expansion at its end are the same for both. -/
theorem polygamma_recurrence (z : Complex K) {n : Nat} (order : n ≤ maxPolygammaOrder)
    (regular : ∀ m : ℕ, z ≠ -(m : Complex K)) (left : z.re < 10 + n)
    (near : 10 + n - z.re ≤ 10000) :
    (∀ j : ℕ, (z + (j : Complex K)) ^ (n + 1) ≠ 0) ∧
      polygamma z n = polygamma (z + 1) n - (-1) ^ n * (n ! : Complex K) / z ^ (n + 1) := by
  refine ⟨fun j => pow_ne_zero _ fun pole => regular j (eq_neg_of_add_eq_zero_left pole), ?_⟩
  have distance : 10 + n - z.re - 1 = 10 + n - (z + 1).re := by rw [add_re, one_re, sub_sub]
  have steps : ⌈10 + n - z.re⌉₊ = ⌈10 + n - (z + 1).re⌉₊ + 1 := by
    rw [ceil_eq_succ (sub_pos.mpr left), distance]
  have near' : 10 + n - (z + 1).re ≤ 10000 := by
    rw [← distance]
    linarith
  rw [polygamma_eq z order near, polygamma_eq (z + 1) order near', steps, Finset.sum_range_succ']
  simp only [add_natCast_succ, Nat.cast_zero, add_zero]
  rw [← shiftTerm_eq, sub_sub]

/-- The derivative of the digamma function at minus one half and at one half. -/
theorem polygamma_recurrence_half :
    (∀ m : ℕ, (⟨-1 / 2, 0⟩ : Complex ℚ) ≠ -(m : Complex ℚ)) ∧ ∀ [Elementary ℚ],
      polygamma (⟨-1 / 2, 0⟩ : Complex ℚ) 1 = polygamma ⟨1 / 2, 0⟩ 1 + 4 := by
  have regular (m : ℕ) : (⟨-1 / 2, 0⟩ : Complex ℚ) ≠ -(m : Complex ℚ) := by
    intro pole
    have half : (-1 / 2 : ℚ) = -m := by simpa using congrArg re pole
    have whole : ((2 * m : ℕ) : ℚ) = 1 := by
      push_cast
      linarith
    have : 2 * m = 1 := by exact_mod_cast whole
    omega
  refine ⟨regular, fun {_} => ?_⟩
  have law := (polygamma_recurrence (⟨-1 / 2, 0⟩ : Complex ℚ) (n := 1) (by decide) regular
    (by norm_num) (by norm_num)).2
  have next : (⟨-1 / 2, 0⟩ : Complex ℚ) + 1 = ⟨1 / 2, 0⟩ := by
    ext <;> norm_num
  have term : (-1) ^ 1 * ((1 ! : ℕ) : Complex ℚ) / (⟨-1 / 2, 0⟩ : Complex ℚ) ^ (1 + 1) = -4 := by
    have value : (-1) ^ 1 * ((1 ! : ℕ) : ℚ) / (-1 / 2) ^ (1 + 1) = -4 := by norm_num
    have image := congrArg realAxis value
    rwa [map_div₀, map_mul, map_pow, map_pow, map_neg, map_one, map_natCast, map_neg,
      map_ofNat] at image
  rw [law, next, term, sub_neg_eq_add]

end Argand.Complex
