import Argand.Proofs.MachineWord

namespace Argand.Machine

open Float.Model (Format UnpackedFloat)
open Float.Model.UnpackedFloat (Sign)

variable {spec : Format} {u v : UnpackedFloat}

/-- The rational number that a finite number stands for, and zero for any other. -/
def value : UnpackedFloat → ℚ
  | .finite s m e _ => (s.apply m : ℤ) * 2 ^ e
  | _ => 0

theorem value_zero (s : Sign) : value (.zero s) = 0 := rfl

theorem value_positive (m : Nat) (e : Int) (h : 0 < m) :
    value (.finite .positive m e h) = m * 2 ^ e := by
  simp [value, Sign.apply]

theorem value_negative (m : Nat) (e : Int) (h : 0 < m) :
    value (.finite .negative m e h) = -(m * 2 ^ e) := by
  simp [value, Sign.apply]

theorem value_neg (u : UnpackedFloat) : value u.neg = -value u := by
  cases u with
  | finite s m e h =>
    cases s
    · exact (value_positive m e h).trans (by rw [value_negative, neg_neg])
    · exact (value_negative m e h).trans (by rw [value_positive])
  | _ => simp [UnpackedFloat.neg, value]

theorem value_abs (u : UnpackedFloat) : value u.abs = |value u| := by
  cases u with
  | finite s m e h =>
    have pos : (0 : ℚ) ≤ m * 2 ^ e := by positivity
    cases s <;> simp [UnpackedFloat.abs, value, Sign.apply, abs_of_nonneg]
  | _ => simp [UnpackedFloat.abs, value]

/-! The sign has no part in what a format can hold. -/

theorem Canonical.neg (h : Canonical spec u) : Canonical spec u.neg := by
  cases u <;> exact h

theorem Canonical.abs (h : Canonical spec u) : Canonical spec u.abs := by
  cases u <;> exact h

theorem Fits.neg (h : Fits spec u) : Fits spec u.neg := by
  cases u <;> exact h

theorem Fits.abs (h : Fits spec u) : Fits spec u.abs := by
  cases u <;> exact h

theorem isFinite_unpacked_neg (u : UnpackedFloat) : u.neg.isFinite = u.isFinite := by
  cases u <;> rfl

theorem isFinite_unpacked_abs (u : UnpackedFloat) : u.abs.isFinite = u.isFinite := by
  cases u <;> rfl

theorem two_zpow_split {a b : Int} (k : Nat) (h : b = a + k) : (2 : ℚ) ^ b = 2 ^ k * 2 ^ a := by
  rw [h, zpow_add₀ two_ne_zero, zpow_natCast, mul_comm]

theorem magnitude_lt {s s' : Sign} {m m' : Nat} {e e' : Int} {h : 0 < m} {h' : 0 < m'}
    (hc : Canonical spec (.finite s m e h)) (hc' : Canonical spec (.finite s' m' e' h'))
    (he : e < e') : (m : ℚ) * 2 ^ e < m' * 2 ^ e' := by
  obtain ⟨hm, hmin, -⟩ := hc
  obtain ⟨-, -, hm'⟩ := hc'
  have full : 2 ^ spec.mantissaBitsWithoutImplicit ≤ m' := by
    rcases hm' with hm' | hm'
    · exact hm'
    · omega
  obtain ⟨k, hk⟩ : ∃ k : Nat, e' = e + 1 + k := ⟨(e' - e - 1).toNat, by omega⟩
  have lt : m < m' * 2 ^ (1 + k) := by
    calc m < 2 ^ (1 + spec.mantissaBitsWithoutImplicit) := hm
      _ = 2 ^ spec.mantissaBitsWithoutImplicit * 2 ^ 1 := by rw [Nat.add_comm, Nat.pow_add]
      _ ≤ m' * 2 ^ (1 + k) := Nat.mul_le_mul full (Nat.pow_le_pow_right (by decide) (by omega))
  have scaled : (m' : ℚ) * 2 ^ e' = (m' * 2 ^ (1 + k) : ℕ) * 2 ^ e := by
    rw [two_zpow_split (a := e) (1 + k) (by push_cast; omega)]
    push_cast
    ring
  rw [scaled]
  exact mul_lt_mul_of_pos_right (by exact_mod_cast lt) (by positivity)

/-- The order of canonical magnitudes is that of their values. -/
theorem compare_magnitude {s s' : Sign} {m m' : Nat} {e e' : Int} {h : 0 < m} {h' : 0 < m'}
    (hc : Canonical spec (.finite s m e h)) (hc' : Canonical spec (.finite s' m' e' h')) :
    (compare e e').then (compare m m') = compare ((m : ℚ) * 2 ^ e) (m' * 2 ^ e') := by
  rcases lt_trichotomy e e' with he | rfl | he
  · rw [compare_lt_iff_lt.mpr he, compare_lt_iff_lt.mpr (magnitude_lt hc hc' he)]
    rfl
  · have pos : (0 : ℚ) < 2 ^ e := by positivity
    rw [compare_eq_iff_eq.mpr rfl]
    rcases lt_trichotomy m m' with hm | rfl | hm
    · rw [compare_lt_iff_lt.mpr hm, compare_lt_iff_lt.mpr]
      · rfl
      · exact mul_lt_mul_of_pos_right (by exact_mod_cast hm) pos
    · rw [compare_eq_iff_eq.mpr rfl, compare_eq_iff_eq.mpr rfl]
      rfl
    · rw [compare_gt_iff_gt.mpr hm, compare_gt_iff_gt.mpr]
      · rfl
      · exact mul_lt_mul_of_pos_right (by exact_mod_cast hm) pos
  · rw [compare_gt_iff_gt.mpr he, compare_gt_iff_gt.mpr (magnitude_lt hc' hc he)]
    rfl

theorem compare_neg_neg (a b : ℚ) : compare (-a) (-b) = (compare a b).swap := by
  rcases lt_trichotomy a b with h | rfl | h
  · rw [compare_lt_iff_lt.mpr h, compare_gt_iff_gt.mpr (neg_lt_neg h), Ordering.swap]
  · rw [compare_eq_iff_eq.mpr rfl, compare_eq_iff_eq.mpr rfl, Ordering.swap]
  · rw [compare_gt_iff_gt.mpr h, compare_lt_iff_lt.mpr (neg_lt_neg h), Ordering.swap]

/-- Finite numbers are compared as the rational numbers that they stand for. -/
theorem compare_eq (hu : Canonical spec u) (hv : Canonical spec v) (fu : u.isFinite = true)
    (fv : v.isFinite = true) : u.compare v = some (compare (value u) (value v)) := by
  match u, v, fu, fv with
  | .zero _, .zero _, _, _ => simp [UnpackedFloat.compare, value]
  | .zero _, .finite .positive m e h, _, _ =>
    have pos : (0 : ℚ) < m * 2 ^ e := by positivity
    rw [value_positive, value_zero, compare_lt_iff_lt.mpr pos]
    rfl
  | .zero _, .finite .negative m e h, _, _ =>
    have pos : (0 : ℚ) < m * 2 ^ e := by positivity
    rw [value_negative, value_zero, compare_gt_iff_gt.mpr (by linarith)]
    rfl
  | .finite .positive m e h, .zero _, _, _ =>
    have pos : (0 : ℚ) < m * 2 ^ e := by positivity
    rw [value_positive, value_zero, compare_gt_iff_gt.mpr pos]
    rfl
  | .finite .negative m e h, .zero _, _, _ =>
    have pos : (0 : ℚ) < m * 2 ^ e := by positivity
    rw [value_negative, value_zero, compare_lt_iff_lt.mpr (by linarith)]
    rfl
  | .finite .positive m e h, .finite .negative m' e' h', _, _ =>
    have pos : (0 : ℚ) < m * 2 ^ e := by positivity
    have pos' : (0 : ℚ) < m' * 2 ^ e' := by positivity
    rw [value_positive, value_negative, compare_gt_iff_gt.mpr (by linarith)]
    rfl
  | .finite .negative m e h, .finite .positive m' e' h', _, _ =>
    have pos : (0 : ℚ) < m * 2 ^ e := by positivity
    have pos' : (0 : ℚ) < m' * 2 ^ e' := by positivity
    rw [value_positive, value_negative, compare_lt_iff_lt.mpr (by linarith)]
    rfl
  | .finite .positive m e h, .finite .positive m' e' h', _, _ =>
    rw [value_positive, value_positive, ← compare_magnitude hu hv]
    rfl
  | .finite .negative m e h, .finite .negative m' e' h', _, _ =>
    rw [value_negative, value_negative, compare_neg_neg, ← compare_magnitude hu hv]
    rfl

theorem lt_iff (hu : Canonical spec u) (hv : Canonical spec v) (fu : u.isFinite = true)
    (fv : v.isFinite = true) : u.lt v = true ↔ value u < value v := by
  rw [UnpackedFloat.lt, compare_eq hu hv fu fv, beq_iff_eq, Option.some_inj, compare_lt_iff_lt]

theorem le_iff (hu : Canonical spec u) (hv : Canonical spec v) (fu : u.isFinite = true)
    (fv : v.isFinite = true) : u.le v = true ↔ value u ≤ value v := by
  rw [UnpackedFloat.le, compare_eq hu hv fu fv, Option.any_some, Ordering.isLE_iff_ne_gt]
  exact compare_le_iff_le

/-- Only the two zeros stand for the same number. -/
theorem eq_or_zero_of_value_eq (hu : Canonical spec u) (hv : Canonical spec v)
    (fu : u.isFinite = true) (fv : v.isFinite = true) (h : value u = value v) :
    u = v ∨ value u = 0 := by
  have same : u.beq v = true := by
    rw [UnpackedFloat.beq, compare_eq hu hv fu fv, compare_eq_iff_eq.mpr h]
    rfl
  obtain ⟨-, -, eq | ⟨rfl, -⟩ | ⟨rfl, -⟩⟩ :=
    (UnpackedFloat.beq_iff_ne_notANumber_and_eq u v).mp same
  · exact Or.inl eq
  · exact Or.inr rfl
  · exact Or.inr rfl

theorem compare_swap (u v : UnpackedFloat) : v.compare u = (u.compare v).map Ordering.swap := by
  have pair (e e' : Int) (m m' : Nat) : (compare e' e).then (compare m' m) =
      ((compare e e').then (compare m m')).swap := by
    rw [Ordering.swap_then, ← Std.OrientedOrd.eq_swap, ← Std.OrientedOrd.eq_swap]
  rcases u with (_ | _) | _ | _ | ⟨_ | _, m, e, h⟩ <;>
    rcases v with (_ | _) | _ | _ | ⟨_ | _, m', e', h'⟩ <;>
      first
      | rfl
      | exact congrArg some (pair e e' m m')
      | exact congrArg (fun o => some o.swap) (pair e e' m m')

theorem compare_isSome (hu : u.isNaN = false) (hv : v.isNaN = false) : (u.compare v).isSome := by
  rcases u with (_ | _) | _ | _ | ⟨_ | _, m, e, h⟩ <;>
    rcases v with (_ | _) | _ | _ | ⟨_ | _, m', e', h'⟩ <;>
      first
      | rfl
      | exact absurd hu (by decide)
      | exact absurd hv (by decide)

theorem le_of_not_lt (hu : u.isNaN = false) (hv : v.isNaN = false) (h : u.lt v = false) :
    v.le u = true := by
  obtain ⟨o, ho⟩ := Option.isSome_iff_exists.mp (compare_isSome hu hv)
  rw [UnpackedFloat.lt, ho] at h
  rw [UnpackedFloat.le, compare_swap u v, ho]
  cases o with
  | lt => exact absurd h (by decide)
  | eq => rfl
  | gt => rfl

theorem lt_of_not_le (hu : u.isNaN = false) (hv : v.isNaN = false) (h : u.le v = false) :
    v.lt u = true := by
  obtain ⟨o, ho⟩ := Option.isSome_iff_exists.mp (compare_isSome hu hv)
  rw [UnpackedFloat.le, ho] at h
  rw [UnpackedFloat.lt, compare_swap u v, ho]
  cases o with
  | lt => exact absurd h (by decide)
  | eq => exact absurd h (by decide)
  | gt => rfl

theorem not_le_negative_infinity (fu : u.isFinite = true) :
    u.le (.infinity .negative) = false := by
  match u, fu with
  | .zero _, _ | .finite .positive _ _ _, _ | .finite .negative _ _ _, _ => rfl

theorem not_positive_infinity_le (fu : u.isFinite = true) :
    UnpackedFloat.le (.infinity .positive) u = false := by
  match u, fu with
  | .zero _, _ | .finite .positive _ _ _, _ | .finite .negative _ _ _, _ => rfl

/-- What lies between finite numbers is finite. -/
theorem isFinite_of_le {w : UnpackedFloat} (fu : u.isFinite = true) (fw : w.isFinite = true)
    (h : u.le v = true) (h' : v.le w = true) : v.isFinite = true := by
  match v with
  | .zero _ | .finite _ _ _ _ => rfl
  | .infinity .positive => rw [not_positive_infinity_le fw] at h'; exact h'
  | .infinity .negative => rw [not_le_negative_infinity fu] at h; exact h
  | .notANumber => exact absurd h' (by simp [UnpackedFloat.le, UnpackedFloat.compare])

end Argand.Machine
