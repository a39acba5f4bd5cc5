import Argand.Proofs.MachineNumber

namespace Argand.Machine

open Float.Model (UnpackedFloat)

variable {u v : UnpackedFloat} {x y : Float}

/-! The order of machine numbers, infinite ones included. -/

theorem compare_neg (u v : UnpackedFloat) :
    u.neg.compare v.neg = (u.compare v).map Ordering.swap := by
  rcases u with (_ | _) | _ | _ | ⟨_ | _, m, e, h⟩ <;>
    rcases v with (_ | _) | _ | _ | ⟨_ | _, m', e', h'⟩ <;>
      first
      | rfl
      | exact congrArg some Ordering.swap_swap.symm

theorem le_neg_neg (h : u.le v = true) : v.neg.le u.neg = true := by
  rw [UnpackedFloat.le, compare_neg, ← compare_swap]
  exact h

theorem le_of_lt (h : u.lt v = true) : u.le v = true := by
  have less : u.compare v = some .lt := eq_of_beq h
  rw [UnpackedFloat.le, less]
  rfl

theorem beq_of_lt (h : u.lt v = true) : u.beq v = false ∧ v.beq u = false := by
  have less : u.compare v = some .lt := eq_of_beq h
  rw [UnpackedFloat.beq, UnpackedFloat.beq, compare_swap u v, less]
  exact ⟨rfl, rfl⟩

theorem not_lt_of_le (h : u.le v = true) : v.lt u = false := by
  rw [UnpackedFloat.le] at h
  rw [UnpackedFloat.lt, compare_swap u v]
  cases compared : u.compare v with
  | none => rfl
  | some o => cases o <;> simp_all

theorem not_lt_of_lt (h : u.lt v = true) : v.lt u = false :=
  not_lt_of_le (le_of_lt h)

theorem lt_or_beq (h : u.le v = true) : u.lt v = true ∨ u.beq v = true := by
  rw [UnpackedFloat.le] at h
  rw [UnpackedFloat.lt, UnpackedFloat.beq]
  cases compared : u.compare v with
  | none => simp [compared] at h
  | some o => cases o <;> simp_all

theorem beq_swap (h : u.beq v = true) : v.beq u = true := by
  have same : u.compare v = some .eq := eq_of_beq h
  rw [UnpackedFloat.beq, compare_swap u v, same]
  rfl

theorem neg_le_zero (h : UnpackedFloat.le (.zero .positive) u = true) :
    u.neg.le (.zero .positive) = true := by
  rcases u with (_ | _) | _ | _ | ⟨_ | _, m, e, hm⟩ <;>
    first
    | rfl
    | exact absurd h Bool.false_ne_true

theorem zero_le_neg (h : u.le (.zero .positive) = true) :
    UnpackedFloat.le (.zero .positive) u.neg = true := by
  rcases u with (_ | _) | _ | _ | ⟨_ | _, m, e, hm⟩ <;>
    first
    | rfl
    | exact absurd h Bool.false_ne_true

theorem isNaN_of_le (h : u.le v = true) : u.isNaN = false ∧ v.isNaN = false := by
  rcases u with (_ | _) | _ | _ | ⟨_ | _, m, e, hm⟩ <;>
    rcases v with (_ | _) | _ | _ | ⟨_ | _, m', e', hm'⟩ <;>
      first
      | exact ⟨rfl, rfl⟩
      | exact absurd h Bool.false_ne_true

theorem isFinite_or_infinity (h : u.isNaN = false) :
    u.isFinite = true ∨ u = .infinity .positive ∨ u = .infinity .negative := by
  match u, h with
  | .zero _, _ | .finite _ _ _ _, _ => exact Or.inl rfl
  | .infinity .positive, _ => exact Or.inr (Or.inl rfl)
  | .infinity .negative, _ => exact Or.inr (Or.inr rfl)

theorem negative_infinity_le (hu : u.isNaN = false) :
    UnpackedFloat.le (.infinity .negative) u = true := by
  rcases u with (_ | _) | _ | _ | ⟨_ | _, m, e, hm⟩ <;>
    first
    | rfl
    | exact absurd hu (by decide)

theorem le_positive_infinity (hu : u.isNaN = false) :
    u.le (.infinity .positive) = true := by
  rcases u with (_ | _) | _ | _ | ⟨_ | _, m, e, hm⟩ <;>
    first
    | rfl
    | exact absurd hu (by decide)

/-- What is at most zero is at most whatever is at least zero. -/
theorem le_of_le_zero (hu : u.le (.zero .positive) = true)
    (hv : UnpackedFloat.le (.zero .positive) v = true) : u.le v = true := by
  rcases u with (_ | _) | _ | _ | ⟨_ | _, m, e, h⟩ <;>
    rcases v with (_ | _) | _ | _ | ⟨_ | _, m', e', h'⟩ <;>
      first
      | rfl
      | exact absurd hu Bool.false_ne_true
      | exact absurd hv Bool.false_ne_true

/-- Two numbers in order lie on one side of zero, or zero lies between them. -/
theorem lt_cases (h : u.lt v = true) :
    (u.lt (.zero .positive) = true ∧ v.lt (.zero .positive) = true) ∨
    (u.le (.zero .positive) = true ∧ UnpackedFloat.le (.zero .positive) v = true) ∨
    (UnpackedFloat.lt (.zero .positive) u = true ∧
      UnpackedFloat.lt (.zero .positive) v = true) := by
  rcases u with (_ | _) | _ | _ | ⟨_ | _, m, e, hm⟩ <;>
    rcases v with (_ | _) | _ | _ | ⟨_ | _, m', e', hm'⟩ <;>
      first
      | exact absurd h Bool.false_ne_true
      | exact Or.inl ⟨rfl, rfl⟩
      | exact Or.inr (Or.inl ⟨rfl, rfl⟩)
      | exact Or.inr (Or.inr ⟨rfl, rfl⟩)

theorem abs_of_lt_zero (h : u.lt (.zero .positive) = true) : u.abs = u.neg := by
  rcases u with (_ | _) | _ | _ | ⟨_ | _, m, e, hm⟩ <;>
    first
    | rfl
    | exact absurd h Bool.false_ne_true

theorem abs_of_zero_lt (h : UnpackedFloat.lt (.zero .positive) u = true) : u.abs = u := by
  rcases u with (_ | _) | _ | _ | ⟨_ | _, m, e, hm⟩ <;>
    first
    | rfl
    | exact absurd h Bool.false_ne_true

theorem float_neg_le_neg (h : x ≤ y) : -y ≤ -x := by
  refine decide_eq_true_iff.mpr ?_
  change (-y).toModel.unpack.le (-x).toModel.unpack = true
  rw [unpack_neg, unpack_neg]
  exact le_neg_neg (decide_eq_true_iff.mp h)

theorem float_neg_le_zero (h : 0 ≤ x) : -x ≤ 0 := by
  refine decide_eq_true_iff.mpr ?_
  change (-x).toModel.unpack.le (.zero .positive) = true
  rw [unpack_neg]
  exact neg_le_zero (decide_eq_true_iff.mp h)

theorem float_zero_le_neg (h : x ≤ 0) : 0 ≤ -x := by
  refine decide_eq_true_iff.mpr ?_
  change UnpackedFloat.le (.zero .positive) (-x).toModel.unpack = true
  rw [unpack_neg]
  exact zero_le_neg (decide_eq_true_iff.mp h)

theorem float_le_of_lt (h : x < y) : x ≤ y :=
  decide_eq_true_iff.mpr (le_of_lt (decide_eq_true_iff.mp h))

theorem float_lt_or_beq (h : x ≤ y) : x < y ∨ (x == y) = true :=
  (lt_or_beq (decide_eq_true_iff.mp h)).imp_left decide_eq_true_iff.mpr

theorem float_beq_swap (h : (x == y) = true) : (y == x) = true := beq_swap h

theorem float_bne_of_lt (h : x < y) : (x == y) = false ∧ (y == x) = false :=
  beq_of_lt (decide_eq_true_iff.mp h)

theorem float_not_lt_of_lt (h : x < y) : ¬ y < x := fun contrary =>
  Bool.eq_false_iff.mp (not_lt_of_lt (decide_eq_true_iff.mp h)) (decide_eq_true_iff.mp contrary)

theorem float_not_lt_of_le (h : x ≤ y) : ¬ y < x := fun contrary =>
  Bool.eq_false_iff.mp (not_lt_of_le (decide_eq_true_iff.mp h)) (decide_eq_true_iff.mp contrary)

theorem float_isNaN_of_lt (h : x < y) : x.isNaN = false ∧ y.isNaN = false :=
  isNaN_of_le (le_of_lt (decide_eq_true_iff.mp h))

theorem float_le_of_le_zero (hx : x ≤ 0) (hy : 0 ≤ y) : x ≤ y :=
  decide_eq_true_iff.mpr (le_of_le_zero (decide_eq_true_iff.mp hx) (decide_eq_true_iff.mp hy))

theorem float_lt_cases (h : x < y) : (x < 0 ∧ y < 0) ∨ (x ≤ 0 ∧ 0 ≤ y) ∨ (0 < x ∧ 0 < y) := by
  rcases lt_cases (decide_eq_true_iff.mp h) with ⟨hx, hy⟩ | ⟨hx, hy⟩ | ⟨hx, hy⟩
  · exact Or.inl ⟨decide_eq_true_iff.mpr hx, decide_eq_true_iff.mpr hy⟩
  · exact Or.inr (Or.inl ⟨decide_eq_true_iff.mpr hx, decide_eq_true_iff.mpr hy⟩)
  · exact Or.inr (Or.inr ⟨decide_eq_true_iff.mpr hx, decide_eq_true_iff.mpr hy⟩)

theorem float_abs_of_neg (h : x < 0) : x.abs = -x :=
  float_ext (by rw [unpack_abs, unpack_neg, abs_of_lt_zero (decide_eq_true_iff.mp h)])

theorem float_eq_infinity (h : x.isInf = true) :
    x = Scalar.infinity ∨ x = -Scalar.infinity := by
  have infinite : x.toModel.unpack.isInf = true := h
  match hx : x.toModel.unpack, infinite with
  | .infinity .positive, _ => exact Or.inl (float_ext hx)
  | .infinity .negative, _ => exact Or.inr (float_ext hx)

theorem float_not_isFinite_iff : ¬ x.isFinite = true ↔ x.isNaN = true ∨ x.isInf = true := by
  change ¬ x.toModel.unpack.isFinite = true ↔
    x.toModel.unpack.isNaN = true ∨ x.toModel.unpack.isInf = true
  cases x.toModel.unpack with
  | infinity s => exact ⟨fun _ => Or.inr rfl, fun _ => Bool.false_ne_true⟩
  | notANumber => exact ⟨fun _ => Or.inl rfl, fun _ => Bool.false_ne_true⟩
  | zero s => exact ⟨fun h => absurd rfl h, by rintro (h | h) <;> cases h⟩
  | finite s m e h => exact ⟨fun h => absurd rfl h, by rintro (h | h) <;> cases h⟩

theorem float_abs_of_pos (h : 0 < x) : x.abs = x :=
  float_ext (by rw [unpack_abs, abs_of_zero_lt (decide_eq_true_iff.mp h)])

end Argand.Machine
