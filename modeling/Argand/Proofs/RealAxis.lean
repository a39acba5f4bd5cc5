import Argand.Proofs.ExactArithmetic

namespace Argand.Complex

open Exact

section parts

variable {R : Type} [Scalar R] {z : Complex R} {x : R}

@[simp] theorem ofReal_re : (ofReal x).re = x := rfl

@[simp] theorem ofReal_im : (ofReal x).im = 0 := rfl

@[simp] theorem add_real_re : (z + x).re = z.re + x := rfl

@[simp] theorem add_real_im : (z + x).im = z.im := rfl

@[simp] theorem mul_real_re : (z * x).re = z.re * x := rfl

@[simp] theorem mul_real_im : (z * x).im = z.im * x := rfl

end parts

variable {K : Type} [Field K] [LinearOrder K] [FloorRing K]

/-- The real axis as a part of the plane. A real operand acts as the point of the axis. -/
def realAxis : K →+* Complex K where
  toFun := ofReal
  map_one' := rfl
  map_zero' := rfl
  map_add' x y := by ext <;> simp
  map_mul' x y := by ext <;> simp

theorem add_real (z : Complex K) (x : K) : z + x = z + realAxis x := by
  ext <;> simp [realAxis]

theorem mul_real (z : Complex K) (x : K) : z * x = z * realAxis x := by
  ext <;> simp [realAxis]

@[simp] theorem natCast_re (n : Nat) : (n : Complex K).re = n := by
  rw [← map_natCast realAxis n]
  rfl

theorem div_real [IsStrictOrderedRing K] (z : Complex K) (x : K) : z / x = z / realAxis x := by
  rw [div_eq_mul_inv, ← map_inv₀, ← mul_real]
  ext
  · exact div_eq_mul_inv _ _
  · exact div_eq_mul_inv _ _

/-- A divisor of zero gives zero by either way. -/
theorem divide_eq_div [IsStrictOrderedRing K] (z w : Complex K) : divide z w = z / w := by
  by_cases zero : w = 0
  · rw [divide, if_pos (isZero_iff.mpr zero), zero, div_real, map_zero]
  · rw [divide, if_neg (mt isZero_iff.mp zero)]

end Argand.Complex
