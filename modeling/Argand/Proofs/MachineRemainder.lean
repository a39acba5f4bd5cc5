import Argand.Proofs.MachineArithmetic
import Argand.Scalar.Machine

namespace Argand.Machine

open Float.Model (Format UnpackedFloat)
open Float.Model.UnpackedFloat (Sign)

variable {spec : Format} {u v : UnpackedFloat} {x m r : ℚ}

/-- What the quotient cut toward zero leaves of the dividend. -/
structure IsRemainder (x m r : ℚ) : Prop where
  multiple : ∃ k : ℤ, x = k * m + r
  small : |r| < |m|
  sign : 0 ≤ x * r

theorem IsRemainder.self (h : |x| < |m|) : IsRemainder x m x :=
  ⟨⟨0, by simp⟩, h, mul_self_nonneg x⟩

theorem abs_signed (s : Sign) (q : ℚ) : |signed s q| = |q| := by
  cases s with
  | positive => rfl
  | negative => exact abs_neg q

/-- A dividend of the larger magnitude has the larger unit. -/
theorem exponent_le_of_magnitude_le {s s' : Sign} {m m' : Nat} {e e' : Int} {h : 0 < m}
    {h' : 0 < m'} (hu : Canonical spec (.finite s m e h))
    (hv : Canonical spec (.finite s' m' e' h'))
    (le : |value (.finite s' m' e' h')| ≤ |value (.finite s m e h)|) : e' ≤ e := by
  by_contra below
  have lt := magnitude_lt hu hv (not_le.mp below)
  have pos : (0 : ℚ) ≤ m * 2 ^ e := by positivity
  have pos' : (0 : ℚ) ≤ m' * 2 ^ e' := by positivity
  rw [value_finite, value_finite, abs_signed, abs_signed, abs_of_nonneg pos,
    abs_of_nonneg pos'] at le
  exact absurd le (not_le.mpr lt)

/-- Integers in a common unit leave an integer remainder, with the sign of the dividend. -/
theorem isRemainder_signed (s s' : Sign) (n : Nat) {n' : Nat} (h' : 0 < n') (unit : Int) :
    IsRemainder (signed s (n * 2 ^ unit)) (signed s' (n' * 2 ^ unit))
      (signed s ((n % n' : ℕ) * 2 ^ unit)) := by
  have pos : (0 : ℚ) < 2 ^ unit := by positivity
  have split : (n : ℚ) = n' * (n / n' : ℕ) + (n % n' : ℕ) := by
    exact_mod_cast (Nat.div_add_mod n n').symm
  refine ⟨⟨(s * s').apply (n / n' : ℕ), ?_⟩, ?_, ?_⟩
  · rw [cast_apply, signed_mul_signed, split]
    generalize ((n / n' : ℕ) : ℚ) = k
    generalize ((n % n' : ℕ) : ℚ) = j
    cases s <;> cases s' <;> simp only [signed] <;> ring
  · have lt : ((n % n' : ℕ) : ℚ) < n' := by exact_mod_cast Nat.mod_lt n h'
    rw [abs_signed, abs_signed, abs_mul, abs_mul, Nat.abs_cast, Nat.abs_cast]
    exact mul_lt_mul_of_pos_right lt (abs_pos.mpr pos.ne')
  · have nonneg : (0 : ℚ) ≤ n * 2 ^ unit * ((n % n' : ℕ) * 2 ^ unit) := by positivity
    cases s with
    | positive => exact nonneg
    | negative => exact nonneg.trans_eq (neg_mul_neg _ _).symm

/-- A number of the format in the unit of the divisor, with digits to spare. -/
theorem value_normalize_of_lt {n n' : Nat} {unit : Int} (s : Sign) (h : n < n')
    (h' : n' < 2 ^ spec.mantissaBits) (hmin : spec.minExponent ≤ unit) :
    value (.normalize spec (s.apply n) unit s) = signed s (n * 2 ^ unit) := by
  have rounds : Rounds spec _ _ := rounds_normalize (s.apply n) unit s
  have few : (n : ℤ) ≤ 2 ^ spec.mantissaBits := by exact_mod_cast (h.trans h').le
  have digits : Representable spec ((s.apply n : ℤ) * 2 ^ unit) := by
    refine ⟨s.apply n, unit, ?_, hmin, rfl⟩
    cases s <;> simpa [Sign.apply] using few
  rw [rounds.eq_of_representable digits, cast_apply, signed_mul]

/-- The remainder is the exact one. -/
theorem isRemainder_remainder (hu : Canonical spec u) (hv : Canonical spec v)
    (fu : u.isFinite = true) (fv : v.isFinite = true) (hne : value v ≠ 0)
    (le : |value v| ≤ |value u|) :
    IsRemainder (value u) (value v) (value (remainder spec u v)) := by
  match u, v, fu, fv with
  | _, .zero _, _, _ => exact absurd (value_zero _) hne
  | .zero s, .finite s' m' e' h', _, _ =>
    rw [value_zero, abs_zero, abs_nonpos_iff] at le
    exact absurd le hne
  | .finite s m e h, .finite s' m' e' h', _, _ =>
    have units := exponent_le_of_magnitude_le hu hv le
    have unit : min e e' = e' := min_eq_right units
    obtain ⟨digits, least, -⟩ := hv
    have scaled : (m : ℚ) * 2 ^ e = (m <<< (e - e').toNat : ℕ) * 2 ^ e' := by
      rw [two_zpow_split (a := e') (b := e) (e - e').toNat (by omega), Nat.shiftLeft_eq]
      push_cast
      ring
    have result : value (remainder spec (.finite s m e h) (.finite s' m' e' h')) =
        signed s (((m <<< (e - e').toNat) % m' : ℕ) * 2 ^ e') := by
      simp only [remainder, unit, Int.sub_self, Int.toNat_zero, Nat.shiftLeft_zero]
      exact value_normalize_of_lt s (Nat.mod_lt _ h') digits least
    rw [result, value_finite, value_finite, scaled]
    exact isRemainder_signed s s' _ h' e'

theorem canonical_remainder (fu : u.isFinite = true) (fv : v.isFinite = true)
    (hne : value v ≠ 0) :
    Canonical spec (remainder spec u v) ∧ (remainder spec u v).isFinite = true := by
  match u, v, fu, fv with
  | _, .zero _, _, _ => exact absurd (value_zero _) hne
  | .zero s, .finite _ _ _ _, _, _ => exact ⟨trivial, rfl⟩
  | .finite s m e h, .finite s' m' e' h', _, _ =>
    have rounds : Rounds spec _ (remainder spec (.finite s m e h) (.finite s' m' e' h')) :=
      rounds_normalize _ _ s
    exact ⟨rounds.canonical, rounds.finite⟩

end Argand.Machine
