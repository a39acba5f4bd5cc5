import Argand.Proofs.EulerTransform
import Argand.Proofs.SingleNumber
import Argand.Elementary.Machine

namespace Argand

namespace Machine

open Float.Model (Format)

variable {x : Float}

/-- Half the distance from one to the next number above it. -/
def halfStep : ℚ := 1 / 2 ^ 53

theorem toRat_one : toRat 1 = 1 := by
  rw [@toRat_of_unpack 1 (2 ^ 52) (-52) (by decide) rfl]
  norm_num

theorem toRat_zero : toRat 0 = 0 := rfl

theorem rounds_one_sub (fx : x.isFinite = true) :
    Rounds .binary64 (1 - toRat x) (1 - x).toModel.unpack := by
  have small : |toRat 1| < 2 ^ (970 : ℤ) := by
    rw [toRat_one, abs_one]
    exact one_lt_zpow₀ one_lt_two (by norm_num)
  have rounds := rounds_float_sub (x := 1) rfl fx small
  rwa [toRat_one] at rounds

theorem representable_one : Representable .binary64 1 := toRat_one ▸ representable_float 1

theorem one_le_one_sub (fx : x.isFinite = true) (neg : x < 0) : 1 ≤ toRat (1 - x) := by
  have below : toRat x < 0 := (float_lt_iff fx rfl).mp neg
  exact (rounds_one_sub fx).ge_of_ge representable_one (by linarith)

theorem representable_next : Representable .binary64 (1 + 2 * halfStep) := by
  refine ⟨2 ^ 52 + 1, -52, by decide, by decide, ?_⟩
  norm_num [halfStep]

/-- No number lies between one and the next. -/
theorem toRat_eq_one_of_lt (h : 1 ≤ toRat x) (h' : toRat x < 1 + 2 * halfStep) : toRat x = 1 := by
  refine le_antisymm (not_lt.mp fun above => ?_) h
  have large : 2 ^ Format.binary64.mantissaBits * 2 ^ (-52 - 1 : ℤ) < toRat x := by
    have one : (2 : ℚ) ^ Format.binary64.mantissaBits * 2 ^ (-52 - 1 : ℤ) = 1 := by
      norm_num [Format.mantissaBits]
    rwa [one]
  obtain ⟨j, eq⟩ := (representable_float x).eq_multiple large
  have pos : 0 < 2 * halfStep := by norm_num [halfStep]
  have unit : (2 : ℚ) ^ (-52 : ℤ) = 2 * halfStep := by norm_num [halfStep]
  have one : (1 : ℚ) = 2 ^ 52 * (2 * halfStep) := by norm_num [halfStep]
  rw [eq, unit] at above h'
  have low : (2 ^ 52 : ℚ) < j := lt_of_mul_lt_mul_right (by linarith) pos.le
  have high : (j : ℚ) < 2 ^ 52 + 1 := lt_of_mul_lt_mul_right (by linarith) pos.le
  have low' : 2 ^ 52 < j := by exact_mod_cast low
  have high' : j < 2 ^ 52 + 1 := by exact_mod_cast high
  omega

/-- At half a step below zero, the tie goes to the even significand of one. -/
theorem one_sub_beq_one_of_tie (fx : x.isFinite = true) (tie : toRat x = -halfStep) :
    (1 - x == 1) = true := by
  have value : toRat (.ofBits 0xbca0000000000000) = -halfStep := by
    change Machine.value (.finite .negative (2 ^ 52) (-105) (by decide)) = _
    rw [value_negative, halfStep]
    norm_num
  have same : x = .ofBits 0xbca0000000000000 :=
    float_eq_of_toRat_eq fx rfl (tie.trans value.symm) (by rw [tie]; norm_num [halfStep])
  rw [same]
  decide

/-- The numbers below zero that are lost when they are taken off one. -/
theorem one_sub_beq_one_iff (fx : x.isFinite = true) (neg : x < 0) :
    (1 - x == 1) = true ↔ -halfStep ≤ toRat x := by
  have rounds := rounds_one_sub fx
  have below : toRat x < 0 := (float_lt_iff fx rfl).mp neg
  constructor
  · intro same
    rw [float_beq_iff rounds.finite rfl, toRat_one] at same
    by_contra far
    rw [not_le] at far
    -- The next number above one would be nearer.
    have near := rounds.nearest _ representable_next
    change |toRat (1 - x) - _| ≤ _ at near
    rw [same, sub_sub_cancel, abs_of_neg below] at near
    rcases abs_cases (1 + 2 * halfStep - (1 - toRat x)) with ⟨eq, -⟩ | ⟨eq, -⟩
    · linarith
    · have pos : 0 < halfStep := by norm_num [halfStep]
      linarith
  · intro close
    rcases close.eq_or_lt with tie | close
    · exact one_sub_beq_one_of_tie fx tie.symm
    · rw [float_beq_iff rounds.finite rfl, toRat_one]
      have near := rounds.nearest _ representable_one
      change |toRat (1 - x) - _| ≤ _ at near
      rw [sub_sub_cancel, abs_of_neg below] at near
      have above := le_abs_self (toRat (1 - x) - (1 - toRat x))
      exact toRat_eq_one_of_lt (one_le_one_sub fx neg) (by linarith)

theorem zero_sub_beq_zero (fx : x.isFinite = true) : (0 - x == 0) = (x == 0) := by
  have rounds := rounds_float_sub (x := 0) rfl fx (by rw [toRat_zero]; norm_num)
  rw [toRat_zero, zero_sub] at rounds
  have opposite : toRat (0 - x) = -toRat x :=
    rounds.eq_of_representable (representable_float x).neg
  rw [Bool.eq_iff_iff, float_beq_iff rounds.finite rfl, float_beq_iff fx rfl, opposite, toRat_zero,
    neg_eq_zero]

end Machine

namespace Complex

open Machine

variable {s : Complex Float}

theorem isZetaPole_one_sub_iff (re : s.re.isFinite = true) (im : s.im.isFinite = true)
    (left : s.re < 0) :
    isZetaPole (1 - s) = true ↔ (s.im == 0) = true ∧ -halfStep ≤ toRat s.re := by
  have parts : isZetaPole (1 - s) = ((1 - s.re == 1) && (0 - s.im == 0)) := rfl
  rw [parts, Bool.and_eq_true, one_sub_beq_one_iff re left, zero_sub_beq_zero im, and_comm]

theorem not_reflected_twice (re : s.re.isFinite = true) (left : s.re < 0) : ¬ (1 - s).re < 0 := by
  have finite := (rounds_one_sub re).finite
  have lower := one_le_one_sub re left
  have order : (1 - s.re) < 0 ↔ toRat (1 - s.re) < toRat 0 := float_lt_iff finite rfl
  exact mt order.mp (by rw [toRat_zero]; linarith)

/-- However many reflections are allowed, one is made. -/
theorem zetaWithin_reflected (re : s.re.isFinite = true) (regular : isZetaPole s = false)
    (left : s.re < 0) (n terms : Nat) :
    zetaWithin (n + 1) s terms = reflectionFactor s *
      if isZetaPole (1 - s) then ofReal Scalar.infinity else zetaSeries (1 - s) terms := by
  rw [zetaWithin_of_left regular left]
  split
  next pole => rw [zetaWithin_of_pole pole]
  next away =>
    rw [zetaWithin_of_right (Bool.eq_false_iff.mpr away) (not_reflected_twice re left)]

/-- Away from the pole its branch is not taken at once. It is taken at the reflected argument for
the numbers just below zero, and only those, that are lost when they are taken off one. -/
theorem zetaOfTerms_pole (re : s.re.isFinite = true) (im : s.im.isFinite = true)
    (regular : (s == 1) = false) (terms : Nat) :
    let count := min terms 200
    (¬ s.re < 0 → zetaOfTerms s terms = zetaSeries s count) ∧
      (s.re < 0 → ¬ (1 - s).re < 0 ∧
        ((1 - s == 1) = true ↔ (s.im == 0) = true ∧ -halfStep ≤ toRat s.re) ∧
        zetaOfTerms s terms = reflectionFactor s *
          if 1 - s == 1 then ofReal Scalar.infinity else zetaSeries (1 - s) count) :=
  ⟨fun right => zetaWithin_of_right regular right 1 _, fun left =>
    ⟨not_reflected_twice re left, isZetaPole_one_sub_iff re im left,
      zetaWithin_reflected re regular left 0 _⟩⟩

/-- A number just below zero whose reflection is the pole. -/
theorem zetaOfTerms_pole_reflected :
    (1 - ⟨-1e-17, 0⟩ == (1 : Complex Float)) = true ∧
      zetaOfTerms (⟨-1e-17, 0⟩ : Complex Float) 40 =
        reflectionFactor ⟨-1e-17, 0⟩ * ofReal Scalar.infinity := by
  have lost : (1 - ⟨-1e-17, 0⟩ == (1 : Complex Float)) = true := by decide +kernel
  refine ⟨lost, ?_⟩
  have value := ((@zetaOfTerms_pole ⟨-1e-17, 0⟩ (by decide +kernel) (by decide +kernel)
    (by decide +kernel) 40).2 (by decide +kernel)).2.2
  rwa [if_pos lost] at value

end Complex

end Argand
