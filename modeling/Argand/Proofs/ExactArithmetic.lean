import Mathlib
import Argand.Complex

namespace Argand

/-! Exact numbers are not rounded, and none of them is infinite or undefined. What a machine sends
to infinity when it divides by zero is zero here. -/

namespace Exact

variable {K : Type} [Field K] [LinearOrder K] [FloorRing K]

/-- The quotient cut toward zero. -/
def quotient (x m : K) : ℤ := if 0 ≤ x / m then ⌊x / m⌋ else ⌈x / m⌉

scoped instance (priority := low) scalar : Scalar K where
  ofScientific m negative e := OfScientific.ofScientific m negative e
  beq a b := decide (a = b)
  decidableLT := inferInstance
  decidableLE := inferInstance
  abs x := |x|
  isFinite _ := true
  signBit x := decide (x < 0)
  truncate x := ⌊x⌋₊
  rem x m := x - quotient x m * m

end Exact

namespace Complex

@[ext] theorem ext_parts {R : Type} {z w : Complex R} (re : z.re = w.re) (im : z.im = w.im) :
    z = w := by
  cases z
  cases w
  exact congrArg₂ Complex.mk re im

section parts

variable {R : Type} [Scalar R] {z w : Complex R}

@[simp] theorem zero_re : (0 : Complex R).re = 0 := rfl

@[simp] theorem zero_im : (0 : Complex R).im = 0 := rfl

@[simp] theorem one_re : (1 : Complex R).re = 1 := rfl

@[simp] theorem one_im : (1 : Complex R).im = 0 := rfl

@[simp] theorem neg_re : (-z).re = -z.re := rfl

@[simp] theorem neg_im : (-z).im = -z.im := rfl

@[simp] theorem add_re : (z + w).re = z.re + w.re := rfl

@[simp] theorem add_im : (z + w).im = z.im + w.im := rfl

@[simp] theorem sub_re : (z - w).re = z.re - w.re := rfl

@[simp] theorem sub_im : (z - w).im = z.im - w.im := rfl

@[simp] theorem mul_re : (z * w).re = z.re * w.re - z.im * w.im := rfl

@[simp] theorem mul_im : (z * w).im = z.re * w.im + z.im * w.re := rfl

end parts

section field

open Exact

variable {K : Type} [Field K] [LinearOrder K] [FloorRing K] {z w : Complex K}

/-- The product and the sum are those of a commutative ring. -/
scoped instance commRing : CommRing (Complex K) where
  add_assoc a b c := by ext <;> simp <;> ring
  zero_add a := by ext <;> simp
  add_zero a := by ext <;> simp
  add_comm a b := by ext <;> simp <;> ring
  neg_add_cancel a := by ext <;> simp
  sub_eq_add_neg a b := by ext <;> simp <;> ring
  left_distrib a b c := by ext <;> simp <;> ring
  right_distrib a b c := by ext <;> simp <;> ring
  zero_mul a := by ext <;> simp
  mul_zero a := by ext <;> simp
  mul_assoc a b c := by ext <;> simp <;> ring
  one_mul a := by ext <;> simp
  mul_one a := by ext <;> simp
  mul_comm a b := by ext <;> simp <;> ring
  nsmul := nsmulRec
  zsmul := zsmulRec

theorem isZero_iff : z.isZero = true ↔ z = 0 := by
  simp only [isZero, Bool.and_eq_true]
  constructor
  · rintro ⟨re, im⟩
    exact ext_parts (of_decide_eq_true re) (of_decide_eq_true im)
  · rintro rfl
    exact ⟨decide_eq_true rfl, decide_eq_true rfl⟩

theorem inverse_zero : inverse (0 : Complex K) = 0 := by
  have zero : (0 : Complex K).isZero = true := isZero_iff.mpr rfl
  rw [inverse, divide, if_pos zero]
  exact ext_parts (div_zero _) (div_zero _)

theorem inverse_of_ne (h : z ≠ 0) : inverse z =
    ⟨z.re / (z.re * z.re + z.im * z.im), -z.im / (z.re * z.re + z.im * z.im)⟩ := by
  rw [inverse, divide, if_neg (mt isZero_iff.mp h)]
  refine ext_parts ?_ ?_
  · change (1 * z.re + 0 * z.im) / _ = _
    rw [one_mul, zero_mul, add_zero]
  · change (0 * z.re - 1 * z.im) / _ = _
    rw [one_mul, zero_mul, zero_sub]

theorem div_eq_mul_inverse (z w : Complex K) : z / w = z * inverse w := by
  by_cases h : w = 0
  · subst h
    have squares : (0 : K) * 0 + 0 * 0 = 0 := by ring
    rw [inverse_zero, mul_zero]
    refine ext_parts ?_ ?_
    · change _ / ((0 : K) * 0 + 0 * 0) = 0
      rw [squares, div_zero]
    · change _ / ((0 : K) * 0 + 0 * 0) = 0
      rw [squares, div_zero]
  · rw [inverse_of_ne h]
    refine ext_parts ?_ ?_
    · change (z.re * w.re + z.im * w.im) / _ = _
      rw [mul_re]
      ring
    · change (z.im * w.re - z.re * w.im) / _ = _
      rw [mul_im]
      ring

variable [IsStrictOrderedRing K]

theorem squares_pos (h : z ≠ 0) : 0 < z.re * z.re + z.im * z.im := by
  by_contra nonpos
  have re := mul_self_nonneg z.re
  have im := mul_self_nonneg z.im
  have re_zero : z.re * z.re = 0 := by linarith
  have im_zero : z.im * z.im = 0 := by linarith
  exact h (ext_parts (mul_self_eq_zero.mp re_zero) (mul_self_eq_zero.mp im_zero))

theorem mul_inverse (h : z ≠ 0) : z * inverse z = 1 := by
  have pos := (squares_pos h).ne'
  rw [inverse_of_ne h]
  refine ext_parts ?_ ?_
  · rw [mul_re, one_re, ← div_self pos]
    ring
  · rw [mul_im, one_im]
    ring

/-- Division is that of a field. -/
scoped instance field : Field (Complex K) where
  toCommRing := commRing
  inv := inverse
  div_eq_mul_inv := div_eq_mul_inverse
  exists_pair_ne := ⟨0, 1, fun h => zero_ne_one (congrArg re h)⟩
  mul_inv_cancel _ h := mul_inverse h
  inv_zero := inverse_zero
  nnqsmul := _
  nnqsmul_def := fun _ _ => rfl
  qsmul := _
  qsmul_def := fun _ _ => rfl

end field

end Complex
end Argand
