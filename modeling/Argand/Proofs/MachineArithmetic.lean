import Argand.Proofs.MachineRounding

namespace Argand.Machine

open Float.Model (Format UnpackedFloat totalExponent)
open Float.Model.UnpackedFloat (Sign Accuracy ExtendedMantissa roundWithAccuracy decreaseExponent
  accuracyOfFraction divCore)

variable {spec : Format} {u v : UnpackedFloat}

theorem log2_shiftLeft {m : Nat} (hm : 0 < m) (k : Nat) : (m <<< k).log2 = m.log2 + k := by
  have pos := Nat.two_pow_pos k
  rw [Nat.shiftLeft_eq, Nat.log2_eq_iff (Nat.mul_pos hm pos).ne', Nat.pow_add,
    show m.log2 + k + 1 = m.log2 + 1 + k by omega, Nat.pow_add]
  exact ⟨Nat.mul_le_mul_right _ (Nat.log2_self_le hm.ne'),
    Nat.mul_lt_mul_of_pos_right Nat.lt_log2_self pos⟩

theorem decreaseExponent_value (s : Sign) (m : Nat) {e unit : Int} (h : unit ≤ e) :
    ((s.apply (decreaseExponent m e unit).1 : ℤ) : ℚ) * 2 ^ unit = (s.apply m : ℤ) * 2 ^ e := by
  rw [two_zpow_split (a := unit) (b := e) (e - unit).toNat (by omega)]
  simp only [decreaseExponent, cast_apply, Nat.shiftLeft_eq]
  push_cast
  rw [signed_mul]
  ring

theorem rounds_round (s : Sign) {m : Nat} (hm : 0 < m) (e : Int) :
    Rounds spec (signed s (m * 2 ^ e)) (UnpackedFloat.round spec s m e) := by
  obtain ⟨unit, hunit⟩ : ∃ unit, spec.targetExponent (totalExponent m e) = unit := ⟨_, rfl⟩
  obtain ⟨k, hk⟩ : ∃ k, (e - unit).toNat = k := ⟨_, rfl⟩
  have same : totalExponent (m <<< k) (e - k) = totalExponent m e := by
    simp only [totalExponent, log2_shiftLeft hm]
    omega
  have described : Describes (.ofMantissaAndAccuracy (m <<< k) .exact) (m <<< k : ℕ) := rfl
  have rounds : Rounds spec _ _ := rounds_roundWithAccuracy s (e := e - k) described
    (by rw [same, hunit]; omega)
  have scaled : ((m <<< k : ℕ) : ℚ) * 2 ^ (e - k) = m * 2 ^ e := by
    rw [two_zpow_split (a := e - k) (b := e) k (by omega), Nat.shiftLeft_eq]
    push_cast
    ring
  rw [scaled] at rounds
  simp only [UnpackedFloat.round, decreaseExponent, hunit, hk]
  exact rounds

theorem rounds_zero (s : Sign) : Rounds spec 0 (.zero s) :=
  Rounds.self (u := .zero s) trivial rfl

theorem rounds_normalize (m e : Int) (zeroSign : Sign) :
    Rounds spec (m * 2 ^ e) (UnpackedFloat.normalize spec m e zeroSign) := by
  unfold UnpackedFloat.normalize
  rcases lt_trichotomy m 0 with hm | rfl | hm
  · rw [compare_lt_iff_lt.mpr hm]
    have rounds : Rounds spec _ _ := rounds_round .negative (m := (-m).toNat) (by omega) e
    have cast : (((-m).toNat : ℕ) : ℚ) = -m := by
      exact_mod_cast Int.toNat_of_nonneg (show 0 ≤ -m by omega)
    simpa [signed, cast] using rounds
  · rw [compare_eq_iff_eq.mpr rfl]
    simpa using rounds_zero zeroSign
  · rw [compare_gt_iff_gt.mpr hm]
    have rounds : Rounds spec _ _ := rounds_round .positive (m := m.toNat) (by omega) e
    have cast : ((m.toNat : ℕ) : ℚ) = m := by
      exact_mod_cast Int.toNat_of_nonneg (show 0 ≤ m by omega)
    simpa [signed, cast] using rounds

/-- A sum of finite numbers is the exact one, rounded. -/
theorem rounds_add (hu : Canonical spec u) (hv : Canonical spec v) (fu : u.isFinite = true)
    (fv : v.isFinite = true) : Rounds spec (value u + value v) (UnpackedFloat.add spec u v) := by
  match u, v, fu, fv with
  | .zero s, .zero s', _, _ =>
    simp only [value_zero, add_zero, UnpackedFloat.add]
    split
    · exact rounds_zero s
    · exact rounds_zero .positive
  | .zero _, .finite s m e h, _, _ =>
    rw [value_zero, zero_add]
    exact Rounds.self hv rfl
  | .finite s m e h, .zero _, _, _ =>
    rw [value_zero, add_zero]
    exact Rounds.self hu rfl
  | .finite s m e h, .finite s' m' e' h', _, _ =>
    have rounds : Rounds spec _ _ := rounds_normalize (s.apply (decreaseExponent m e (min e e')).1 +
      s'.apply (decreaseExponent m' e' (min e e')).1) (min e e') .positive
    rw [Int.cast_add, add_mul, decreaseExponent_value s m (min_le_left e e'),
      decreaseExponent_value s' m' (min_le_right e e')] at rounds
    exact rounds

theorem rounds_sub (hu : Canonical spec u) (hv : Canonical spec v) (fu : u.isFinite = true)
    (fv : v.isFinite = true) : Rounds spec (value u - value v) (UnpackedFloat.sub spec u v) := by
  match u, v, fu, fv with
  | .zero s, .zero s', _, _ =>
    simp only [value_zero, sub_zero, UnpackedFloat.sub]
    split
    · exact rounds_zero s
    · exact rounds_zero .positive
  | .zero _, .finite s m e h, _, _ =>
    rw [value_zero, zero_sub, ← value_neg]
    exact Rounds.self (u := (UnpackedFloat.finite s m e h).neg) hv rfl
  | .finite s m e h, .zero _, _, _ =>
    rw [value_zero, sub_zero]
    exact Rounds.self hu rfl
  | .finite s m e h, .finite s' m' e' h', _, _ =>
    have rounds : Rounds spec _ _ := rounds_normalize (s.apply (decreaseExponent m e (min e e')).1 -
      s'.apply (decreaseExponent m' e' (min e e')).1) (min e e') .positive
    rw [Int.cast_sub, sub_mul, decreaseExponent_value s m (min_le_left e e'),
      decreaseExponent_value s' m' (min_le_right e e')] at rounds
    exact rounds

theorem signed_mul_signed (s s' : Sign) (a b : ℚ) :
    signed s a * signed s' b = signed (s * s') (a * b) := by
  cases s <;> cases s'
  · exact neg_mul_neg a b
  · exact neg_mul a b
  · exact mul_neg a b
  · rfl

theorem le_target_product {s s' : Sign} {m m' : Nat} {e e' : Int} {h : 0 < m} {h' : 0 < m'}
    (hmin : spec.minExponent ≤ 0) (hc : Canonical spec (.finite s m e h))
    (hc' : Canonical spec (.finite s' m' e' h')) :
    e + e' ≤ spec.targetExponent (totalExponent (m * m') (e + e')) := by
  obtain ⟨-, -, hf⟩ := hc
  obtain ⟨-, -, hf'⟩ := hc'
  have many (hd : 2 ^ spec.mantissaBitsWithoutImplicit ≤ m * m') :
      e + e' ≤ spec.targetExponent (totalExponent (m * m') (e + e')) := by
    have log := (Nat.le_log2 (Nat.mul_pos h h').ne').mpr hd
    simp only [Format.targetExponent, totalExponent, Format.mantissaBits]
    omega
  rcases hf with hf | hf
  · exact many (hf.trans (Nat.le_mul_of_pos_right m h'))
  · rcases hf' with hf' | hf'
    · exact many (hf'.trans (Nat.le_mul_of_pos_left m' h))
    · simp only [Format.targetExponent]
      omega

theorem rounds_mul (hmin : spec.minExponent ≤ 0) (hu : Canonical spec u) (hv : Canonical spec v)
    (fu : u.isFinite = true) (fv : v.isFinite = true) :
    Rounds spec (value u * value v) (UnpackedFloat.mul spec u v) := by
  match u, v, fu, fv with
  | .zero s, .zero s', _, _ =>
    rw [value_zero, zero_mul]
    exact rounds_zero (s * s')
  | .zero s, .finite s' m e h, _, _ =>
    rw [value_zero, zero_mul]
    exact rounds_zero (s * s')
  | .finite s m e h, .zero s', _, _ =>
    rw [value_zero, mul_zero]
    exact rounds_zero (s * s')
  | .finite s m e h, .finite s' m' e' h', _, _ =>
    have described : Describes (.ofMantissaAndAccuracy (m * m') .exact) (m * m' : ℕ) := rfl
    have rounds := rounds_roundWithAccuracy (s * s') described (le_target_product hmin hu hv)
    have split : ((m * m' : ℕ) : ℚ) * 2 ^ (e + e') = m * 2 ^ e * (m' * 2 ^ e') := by
      rw [zpow_add₀ two_ne_zero]
      push_cast
      ring
    rw [value_finite, value_finite, signed_mul_signed, ← split]
    exact rounds

/-- The digits of an integer quotient, with what the remainder says of the following ones. -/
theorem describes_quotient (n d : Nat) (hd : 0 < d) :
    Describes (.ofMantissaAndAccuracy (n / d) (accuracyOfFraction (n % d) d)) ((n : ℚ) / d) := by
  have pos : (0 : ℚ) < d := by exact_mod_cast hd
  have split : (n : ℚ) / d = (n / d : ℕ) + ((n % d : ℕ) : ℚ) / d := by
    rw [div_eq_iff pos.ne', add_mul, div_mul_cancel₀ _ pos.ne']
    exact_mod_cast (Nat.div_add_mod' n d).symm
  have lt : n % d < d := Nat.mod_lt n hd
  rw [split]
  generalize n / d = q
  generalize n % d = r at lt
  unfold accuracyOfFraction
  split
  next hr => simp [Describes, ExtendedMantissa.ofMantissaAndAccuracy, hr]
  next hr =>
    have rpos : (0 : ℚ) < r := by exact_mod_cast Nat.pos_of_ne_zero hr
    have below : (r : ℚ) / d < 1 := (div_lt_one pos).mpr (by exact_mod_cast lt)
    have frac : (0 : ℚ) < r / d := by positivity
    rcases lt_trichotomy (2 * r) d with h | h | h
    · have half : (r : ℚ) / d < 1 / 2 := by
        rw [div_lt_div_iff₀ pos two_pos]
        exact_mod_cast (by omega : r * 2 < 1 * d)
      rw [compare_lt_iff_lt.mpr h]
      change (q : ℚ) < q + r / d ∧ q + r / d < (q : ℚ) + 1 / 2
      constructor <;> linarith
    · have half : (r : ℚ) / d = 1 / 2 := by
        rw [div_eq_div_iff pos.ne' two_ne_zero]
        exact_mod_cast (by omega : r * 2 = 1 * d)
      rw [compare_eq_iff_eq.mpr h]
      simp [Describes, ExtendedMantissa.ofMantissaAndAccuracy, half]
    · have half : (1 : ℚ) / 2 < r / d := by
        rw [div_lt_div_iff₀ two_pos pos]
        exact_mod_cast (by omega : 1 * d < r * 2)
      rw [compare_gt_iff_gt.mpr h]
      change (q : ℚ) + 1 / 2 < q + r / d ∧ q + r / d < (q : ℚ) + 1
      constructor <;> linarith

theorem signed_div (s s' : Sign) (a b : ℚ) :
    signed s a / signed s' b = signed (s / s') (a / b) := by
  cases s <;> cases s'
  · exact neg_div_neg_eq a b
  · exact neg_div b a
  · exact div_neg a
  · rfl

/-- A quotient that is to have the digits of the format has at least as many before rounding. -/
theorem le_target_quotient {m m' k : Nat} {unit : Int} (hm : 0 < m) (hm' : 0 < m')
    (h : unit ≤ spec.minExponent ∨ m'.log2 + spec.mantissaBits ≤ m.log2 + k) :
    unit ≤ spec.targetExponent (totalExponent ((m <<< k) / m') unit) := by
  simp only [Format.targetExponent, totalExponent]
  rcases h with h | h
  · omega
  · have many : 2 ^ spec.mantissaBitsWithoutImplicit ≤ (m <<< k) / m' := by
      rw [Nat.le_div_iff_mul_le hm', Nat.shiftLeft_eq]
      calc 2 ^ spec.mantissaBitsWithoutImplicit * m'
          ≤ 2 ^ spec.mantissaBitsWithoutImplicit * 2 ^ (m'.log2 + 1) :=
            Nat.mul_le_mul_left _ Nat.lt_log2_self.le
        _ ≤ 2 ^ (m.log2 + k) := by
          rw [← Nat.pow_add]
          refine Nat.pow_le_pow_right (by decide) ?_
          simp only [Format.mantissaBits] at h
          omega
        _ ≤ m * 2 ^ k := by
          rw [Nat.pow_add]
          exact Nat.mul_le_mul_right _ (Nat.log2_self_le hm.ne')
    have pos := Nat.two_pow_pos spec.mantissaBitsWithoutImplicit
    have log := (Nat.le_log2 (n := (m <<< k) / m') (by omega)).mpr many
    simp only [Format.mantissaBits]
    omega

/-- A quotient of finite numbers is the exact one, rounded. -/
theorem rounds_div (hu : Canonical spec u) (hv : Canonical spec v) (fu : u.isFinite = true)
    (fv : v.isFinite = true) (hne : value v ≠ 0) :
    Rounds spec (value u / value v) (UnpackedFloat.div spec u v) := by
  match u, v, fu, fv with
  | _, .zero _, _, _ => exact absurd (value_zero _) hne
  | .zero s, .finite s' m' e' h', _, _ =>
    rw [value_zero, zero_div]
    exact rounds_zero (s / s')
  | .finite s m e h, .finite s' m' e' h', _, _ =>
    obtain ⟨unit, hunit⟩ : ∃ unit, min (e - e') (spec.targetExponent
      (totalExponent m e - totalExponent m' e')) = unit := ⟨_, rfl⟩
    obtain ⟨k, hk⟩ : ∃ k, (e - e' - unit).toNat = k := ⟨_, rfl⟩
    have core : UnpackedFloat.div spec (.finite s m e h) (.finite s' m' e' h') =
        roundWithAccuracy spec (s / s') ((m <<< k) / m') unit
          (accuracyOfFraction ((m <<< k) % m') m') := by
      simp only [UnpackedFloat.div, divCore, hunit, hk]
    have enough : unit ≤ spec.minExponent ∨ m'.log2 + spec.mantissaBits ≤ m.log2 + k := by
      simp only [Format.targetExponent, totalExponent] at hunit
      omega
    have rounds : Rounds spec _ _ := rounds_roundWithAccuracy (s / s')
      (describes_quotient (m <<< k) m' h') (le_target_quotient h h' enough)
    have scaled : ((m <<< k : ℕ) : ℚ) / m' * 2 ^ unit = m * 2 ^ e / (m' * 2 ^ e') := by
      have split : (2 : ℚ) ^ e = 2 ^ k * 2 ^ unit * 2 ^ e' := by
        rw [← zpow_natCast, ← zpow_add₀ two_ne_zero, ← zpow_add₀ two_ne_zero]
        congr 1
        omega
      have ne : (m' : ℚ) ≠ 0 := by exact_mod_cast h'.ne'
      have ne' : (2 : ℚ) ^ e' ≠ 0 := by positivity
      rw [split, Nat.shiftLeft_eq, div_mul_eq_mul_div, div_eq_div_iff ne (mul_ne_zero ne ne')]
      push_cast
      ring
    rw [core, value_finite, value_finite, signed_div, ← scaled]
    exact rounds

end Argand.Machine
