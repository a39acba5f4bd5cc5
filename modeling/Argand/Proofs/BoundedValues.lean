import Argand.Proofs.FiniteSurface
import Argand.Proofs.MachineOrder

namespace Argand.Complex

open Machine
open Plot (Bounded within_bounded within_limit)

variable {x y : Float} {z : Complex Float}

/-- A number that is plotted as it is. -/
def InLimits (x : Float) : Prop := -limit ≤ x ∧ x ≤ limit

theorem inLimits_iff : InLimits x ↔ Bounded x := by
  constructor
  · rintro ⟨ge, le⟩
    exact (Within.of_le rfl rfl ge le).mono within_limit.neg.ge within_limit.le
  · intro h
    exact ⟨(float_le_iff rfl h.finite).mpr (within_limit.neg.le.trans h.ge),
      (float_le_iff h.finite rfl).mpr (h.le.trans within_limit.ge)⟩

theorem InLimits.finite (h : InLimits x) : x.isFinite = true := (inLimits_iff.mp h).finite

theorem lt_abs_iff (fx : x.isFinite = true) : limit < Scalar.abs x ↔ ¬ InLimits x := by
  have order : limit < Scalar.abs x ↔ toRat limit < toRat x.abs :=
    float_lt_iff rfl (isFinite_abs fx)
  constructor
  · intro beyond inside
    obtain ⟨-, ge, le⟩ := inLimits_iff.mp inside
    rw [order, toRat_abs] at beyond
    exact absurd beyond (not_lt.mpr ((abs_le.mpr ⟨ge, le⟩).trans within_limit.ge))
  · intro outside
    by_contra within
    exact outside (inLimits_iff.mpr (Plot.bounded_of_abs fx within))

/-! The parts are bounded on their own. -/

theorem isUndefined_eq (x : Float) : Scalar.isUndefined x = x.isNaN := by
  have self : (x == x) = !decide (x = .nan) := by
    rw [Bool.eq_iff_iff, Bool.not_eq_true', decide_eq_false_iff_not]
    exact Float.beq_self_iff
  change (!(x == x)) = _
  rw [self, Bool.not_not, Float.isNaN_eq_decide_eq_nan]

theorem bounded_of_isNaN (h : x.isNaN = true) : bounded x = limit :=
  if_pos ((isUndefined_eq x).trans h)

theorem bounded_of_not_isNaN (h : x.isNaN = false) :
    bounded x = Scalar.clamp (-limit) limit x :=
  if_neg (Bool.eq_false_iff.mp ((isUndefined_eq x).trans h))

theorem bounded_of_inLimits (h : InLimits x) : bounded x = x := by
  have defined := (inLimits_iff.mp h).not_nan
  rw [bounded_of_not_isNaN defined, Scalar.clamp, if_neg (float_not_lt_of_le h.1),
    if_neg (float_not_lt_of_le h.2)]

theorem not_lt_neg_limit (h : limit < x) : ¬ x < -limit := by
  intro below
  obtain ⟨-, pos⟩ : (0 : Float) < limit ∧ 0 < x := by
    rcases float_lt_cases h with ⟨neg, -⟩ | ⟨neg, -⟩ | pos
    · exact absurd neg (by decide)
    · exact absurd neg (by decide)
    · exact pos
  rcases float_lt_cases below with ⟨neg, -⟩ | ⟨-, wrong⟩ | ⟨-, wrong⟩
  · exact float_not_lt_of_lt pos neg
  · exact absurd wrong (by decide)
  · exact absurd wrong (by decide)

theorem bounded_of_lt (h : x < -limit) : bounded x = -limit := by
  rw [bounded_of_not_isNaN (float_isNaN_of_lt h).1, Scalar.clamp, if_pos h]

theorem bounded_of_gt (h : limit < x) : bounded x = limit := by
  rw [bounded_of_not_isNaN (float_isNaN_of_lt h).2, Scalar.clamp, if_neg (not_lt_neg_limit h),
    if_pos h]

theorem signBit_bounded_of_isInf (h : x.isInf = true) :
    Scalar.signBit (bounded x) = Scalar.signBit x := by
  rcases float_eq_infinity h with rfl | rfl <;> decide

/-- The second number is plotted for the first one. -/
structure Projects (x y : Float) : Prop where
  defined : y.isNaN = false
  inside : InLimits y
  kept : InLimits x → y = x
  above : limit < x → y = limit
  below : x < -limit → y = -limit
  sign : x.isInf = true → Scalar.signBit y = Scalar.signBit x
  undefined : x.isNaN = true → y = limit

theorem projects_bounded (x : Float) : Projects x (bounded x) where
  defined := (within_bounded x).not_nan
  inside := inLimits_iff.mpr (within_bounded x)
  kept := bounded_of_inLimits
  above := bounded_of_gt
  below := bounded_of_lt
  sign := signBit_bounded_of_isInf
  undefined := bounded_of_isNaN

/-! The parts are judged together. -/

theorem isFinite_iff : z.isFinite = true ↔ z.re.isFinite = true ∧ z.im.isFinite = true :=
  Bool.and_eq_true_iff

theorem isFinite_of_inLimits (h : InLimits z.re ∧ InLimits z.im) : z.isFinite = true :=
  isFinite_iff.mpr ⟨h.1.finite, h.2.finite⟩

/-- A value that is not finite is reported as such, even if its other part is beyond the limit. -/
theorem fault?_cases (z : Complex Float) :
    (¬ z.isFinite = true ∧ z.fault? = some .notFinite) ∨
      (z.isFinite = true ∧ ¬ (InLimits z.re ∧ InLimits z.im) ∧ z.fault? = some .outOfRange) ∨
      ((InLimits z.re ∧ InLimits z.im) ∧ z.fault? = none) := by
  unfold fault?
  split
  next infinite => exact Or.inl ⟨by simpa using infinite, rfl⟩
  next finite =>
    have finite : z.isFinite = true := by simpa using finite
    obtain ⟨re, im⟩ := isFinite_iff.mp finite
    right
    split
    next beyond =>
      rw [Bool.or_eq_true, decide_eq_true_iff, decide_eq_true_iff, lt_abs_iff re, lt_abs_iff im]
        at beyond
      exact Or.inl ⟨finite, not_and_or.mpr beyond, rfl⟩
    next inside =>
      rw [Bool.or_eq_true, decide_eq_true_iff, decide_eq_true_iff, lt_abs_iff re, lt_abs_iff im,
        not_or, not_not, not_not] at inside
      exact Or.inr ⟨inside, rfl⟩

theorem fault?_eq_none_iff : z.fault? = none ↔ InLimits z.re ∧ InLimits z.im := by
  rcases fault?_cases z with ⟨infinite, fault⟩ | ⟨-, outside, fault⟩ | ⟨inside, fault⟩
  · simp [fault, mt isFinite_of_inLimits infinite]
  · simp [fault, outside]
  · simp [fault, inside]

theorem fault?_eq_notFinite_iff : z.fault? = some .notFinite ↔ ¬ z.isFinite = true := by
  rcases fault?_cases z with ⟨infinite, fault⟩ | ⟨finite, -, fault⟩ | ⟨inside, fault⟩
  · simp [fault, infinite]
  · simp [fault, finite]
  · simp [fault, isFinite_of_inLimits inside]

theorem fault?_eq_outOfRange_iff : z.fault? = some .outOfRange ↔
    z.isFinite = true ∧ ¬ (InLimits z.re ∧ InLimits z.im) := by
  rcases fault?_cases z with ⟨infinite, fault⟩ | ⟨finite, outside, fault⟩ | ⟨inside, fault⟩
  · simp [fault, infinite]
  · simp [fault, finite, outside]
  · simp [fault, inside]

/-- The shortcut for a value within the limit gives what bounding its parts would give. -/
theorem bound_eq (z : Complex Float) : z.bound = (⟨bounded z.re, bounded z.im⟩, z.fault?) := by
  unfold bound
  split
  next none =>
    obtain ⟨re, im⟩ := fault?_eq_none_iff.mp none
    rw [bounded_of_inLimits re, bounded_of_inLimits im, none]
  next fault => rw [fault]

theorem bound_of_inLimits (h : InLimits z.re ∧ InLimits z.im) : z.bound = (z, none) := by
  rw [bound_eq, bounded_of_inLimits h.1, bounded_of_inLimits h.2, fault?_eq_none_iff.mpr h]

/-- Each part goes to the nearest number within the limit, whatever the other part is, and what is
within the limit stays as it is. Among the faults, a part that is not finite comes first. -/
theorem bound_projection (z : Complex Float) :
    let w := z.bound.1
    let fault := z.bound.2
    Projects z.re w.re ∧ Projects z.im w.im ∧
      (fault = none ↔ (z.re.isFinite = true ∧ z.im.isFinite = true) ∧
        (InLimits z.re ∧ InLimits z.im)) ∧
      (fault = none → w = z) ∧
      (fault = some .notFinite ↔
        (z.re.isNaN = true ∨ z.re.isInf = true) ∨ (z.im.isNaN = true ∨ z.im.isInf = true)) ∧
      (fault = some .outOfRange ↔ (z.re.isFinite = true ∧ z.im.isFinite = true) ∧
        ¬ (InLimits z.re ∧ InLimits z.im)) ∧
      w.bound = (w, none) := by
  intro w fault
  have parts : w = ⟨bounded z.re, bounded z.im⟩ := congrArg Prod.fst (bound_eq z)
  have judged : fault = z.fault? := congrArg Prod.snd (bound_eq z)
  have re : Projects z.re w.re := parts ▸ projects_bounded z.re
  have im : Projects z.im w.im := parts ▸ projects_bounded z.im
  refine ⟨re, im, ?_, ?_, ?_, ?_, bound_of_inLimits ⟨re.inside, im.inside⟩⟩
  · rw [judged, fault?_eq_none_iff]
    exact ⟨fun inside => ⟨⟨inside.1.finite, inside.2.finite⟩, inside⟩, And.right⟩
  · intro none
    obtain ⟨insideRe, insideIm⟩ := fault?_eq_none_iff.mp (judged.symm.trans none)
    exact congrArg₂ Complex.mk (re.kept insideRe) (im.kept insideIm)
  · rw [judged, fault?_eq_notFinite_iff, isFinite_iff, not_and_or, float_not_isFinite_iff,
      float_not_isFinite_iff]
  · rw [judged, fault?_eq_outOfRange_iff, isFinite_iff]

end Argand.Complex
