import Argand.Proofs.MachineValue

namespace Argand.Machine

open Float.Model (Format UnpackedFloat totalExponent)
open Float.Model.UnpackedFloat (Sign Accuracy ExtendedMantissa shiftToExponent
  shiftToTargetExponent roundWithAccuracy decreaseExponent normalize)

variable {spec : Format} {u v : UnpackedFloat} {q r : ℚ}

/-- What a significand with its two residual bits says of the exact one. -/
def Describes (em : ExtendedMantissa) (t : ℚ) : Prop :=
  match em.roundBit, em.stickyBit with
  | false, false => t = em.mantissa
  | false, true => (em.mantissa : ℚ) < t ∧ t < em.mantissa + 1 / 2
  | true, false => t = em.mantissa + 1 / 2
  | true, true => (em.mantissa : ℚ) + 1 / 2 < t ∧ t < em.mantissa + 1

theorem Describes.bounds {em : ExtendedMantissa} {t : ℚ} (h : Describes em t) :
    (em.mantissa : ℚ) ≤ t ∧ t < em.mantissa + 1 := by
  obtain ⟨m, r, s⟩ := em
  cases r <;> cases s <;> simp only [Describes] at h <;> constructor <;> linarith

theorem Describes.shiftRightOne {em : ExtendedMantissa} {t : ℚ} (h : Describes em t) :
    Describes em.shiftRightOne (t / 2) := by
  obtain ⟨m, r, s⟩ := em
  have split : (m : ℚ) = 2 * (m / 2 : ℕ) + (m % 2 : ℕ) := by
    exact_mod_cast (Nat.div_add_mod m 2).symm
  rcases Nat.mod_two_eq_zero_or_one m with hm | hm <;> rw [hm] at split <;> push_cast at split <;>
    cases r <;> cases s <;> simp [Describes, ExtendedMantissa.shiftRightOne, hm] at h ⊢ <;>
    first | linarith | (constructor <;> linarith)

theorem Describes.shiftRight {em : ExtendedMantissa} {t : ℚ} (h : Describes em t) (n : Nat) :
    Describes (em >>> n) (t / 2 ^ n) := by
  change Describes (n.repeat ExtendedMantissa.shiftRightOne em) _
  induction n with
  | zero => simpa [Nat.repeat] using h
  | succ n ih =>
    rw [pow_succ, ← div_div]
    exact ih.shiftRightOne

/-- The rounded significand is off by one half at most. -/
theorem Describes.rounded {em : ExtendedMantissa} {t : ℚ} (h : Describes em t) :
    |(em.roundedMantissa : ℚ) - t| ≤ 1 / 2 := by
  obtain ⟨m, r, s⟩ := em
  have parity : ((m % 2 : ℕ) : ℚ) = 0 ∨ ((m % 2 : ℕ) : ℚ) = 1 := by
    rcases Nat.mod_two_eq_zero_or_one m with hm | hm <;> simp [hm]
  cases r <;> cases s <;> simp only [Describes] at h <;>
    simp only [ExtendedMantissa.roundedMantissa, ExtendedMantissa.accuracy,
      Accuracy.roundToNearestEven] <;> push_cast <;> rw [abs_le]
  · constructor <;> linarith
  · constructor <;> linarith
  · rcases parity with hm | hm <;> constructor <;> linarith
  · constructor <;> linarith

/-- A rational number that has the digits of the format, whatever its size. -/
def Representable (spec : Format) (q : ℚ) : Prop :=
  ∃ (k : ℤ) (e : ℤ), |k| ≤ 2 ^ spec.mantissaBits ∧ spec.minExponent ≤ e ∧ q = k * 2 ^ e

theorem Representable.neg (h : Representable spec q) : Representable spec (-q) := by
  obtain ⟨k, e, hk, he, rfl⟩ := h
  exact ⟨-k, e, by rwa [abs_neg], he, by push_cast; ring⟩

theorem representable_value (h : Canonical spec u) (hmin : spec.minExponent ≤ 0) :
    Representable spec (value u) := by
  cases u with
  | finite s m e hm =>
    refine ⟨s.apply m, e, ?_, h.2.1, rfl⟩
    have lt : (m : ℤ) < 2 ^ spec.mantissaBits := by exact_mod_cast h.1
    cases s <;> simp only [Sign.apply, abs_neg, Nat.abs_cast] <;> exact lt.le
  | _ => exact ⟨0, 0, by simp, hmin, by simp [value]⟩

/-- No number of the format is nearer to `q`. -/
structure Rounds (spec : Format) (q : ℚ) (u : UnpackedFloat) : Prop where
  canonical : Canonical spec u
  finite : u.isFinite = true
  nearest : ∀ b, Representable spec b → |value u - q| ≤ |b - q|

theorem Rounds.self (hc : Canonical spec u) (hf : u.isFinite = true) :
    Rounds spec (value u) u :=
  ⟨hc, hf, fun b _ => by rw [sub_self, abs_zero]; exact abs_nonneg _⟩

theorem Rounds.le_of_le {b : ℚ} (h : Rounds spec q u) (hb : Representable spec b) (hq : q ≤ b) :
    value u ≤ b := by
  have near := h.nearest b hb
  rw [abs_of_nonneg (sub_nonneg.mpr hq)] at near
  have := le_abs_self (value u - q)
  linarith

theorem Rounds.ge_of_ge {b : ℚ} (h : Rounds spec q u) (hb : Representable spec b) (hq : b ≤ q) :
    b ≤ value u := by
  have near := h.nearest b hb
  rw [abs_of_nonpos (sub_nonpos.mpr hq)] at near
  have := neg_abs_le (value u - q)
  linarith

theorem Rounds.eq_of_representable (h : Rounds spec q u) (hq : Representable spec q) :
    value u = q :=
  le_antisymm (h.le_of_le hq le_rfl) (h.ge_of_ge hq le_rfl)

/-- Between two different numbers, rounding keeps the order. -/
theorem Rounds.mono (hmin : spec.minExponent ≤ 0) (hu : Rounds spec q u) (hv : Rounds spec r v)
    (h : q < r) : value u ≤ value v := by
  have near := hu.nearest _ (representable_value hv.canonical hmin)
  have near' := hv.nearest _ (representable_value hu.canonical hmin)
  by_contra hlt
  rw [not_le] at hlt
  -- Each would be at least as near to the number of the other, which only a tie allows.
  have above : q ≤ value u := by
    by_contra below
    rw [not_le] at below
    rw [abs_of_neg (by linarith), abs_of_neg (by linarith)] at near'
    linarith
  have below : value v ≤ r := by
    by_contra above
    rw [not_le] at above
    rw [abs_of_pos (by linarith), abs_of_pos (by linarith)] at near
    linarith
  rw [abs_of_nonneg (by linarith)] at near
  rw [abs_of_nonpos (by linarith)] at near'
  rcases abs_cases (value v - q) with ⟨h₁, -⟩ | ⟨h₁, -⟩ <;>
    rcases abs_cases (value u - r) with ⟨h₂, -⟩ | ⟨h₂, -⟩ <;> linarith

/-- Only numbers from the next power of two on are too large to be stored. -/
theorem fits_of_value_lt (hmax : spec.minExponent ≤ maxExponent spec) (hc : Canonical spec u)
    (h : |value u| < 2 ^ (maxExponent spec + spec.mantissaBits)) : Fits spec u := by
  cases u with
  | finite s m e hm =>
    obtain ⟨-, -, full⟩ := hc
    by_contra hlt
    rw [Fits, not_le] at hlt
    have low : 2 ^ spec.mantissaBitsWithoutImplicit ≤ m := full.resolve_right (by omega)
    have magnitude : |value (.finite s m e hm)| = m * 2 ^ e := by
      have pos : (0 : ℚ) ≤ m * 2 ^ e := by positivity
      cases s <;> simp [value, Sign.apply, abs_of_nonneg pos]
    have above : (2 : ℚ) ^ (maxExponent spec + spec.mantissaBits) ≤ m * 2 ^ e := by
      rw [two_zpow_split (a := maxExponent spec + 1) spec.mantissaBitsWithoutImplicit
        (by simp [Format.mantissaBits]; omega)]
      gcongr
      · exact_mod_cast low
      · norm_num
      · exact hlt
    linarith
  | _ => trivial

/-- The largest number of a format is a unit below the power of two that is too large. -/
theorem abs_value_le (hc : Canonical spec u) (hf : Fits spec u) :
    |value u| ≤ (2 ^ spec.mantissaBits - 1) * 2 ^ maxExponent spec := by
  cases u with
  | finite s m e hm =>
    have digits : (m : ℚ) ≤ 2 ^ spec.mantissaBits - 1 := by
      have lt : ((m + 1 : ℕ) : ℚ) ≤ 2 ^ spec.mantissaBits := by exact_mod_cast hc.1
      push_cast at lt
      linarith
    have unit : (2 : ℚ) ^ e ≤ 2 ^ maxExponent spec := zpow_le_zpow_right₀ one_le_two hf
    have pos : (0 : ℚ) ≤ m * 2 ^ e := by positivity
    have magnitude : |value (.finite s m e hm)| = m * 2 ^ e := by
      cases s <;> simp [value_positive, value_negative, abs_of_nonneg pos]
    rw [magnitude]
    gcongr
    exact le_trans (Nat.cast_nonneg m) digits
  | _ =>
    have one : (1 : ℚ) ≤ 2 ^ spec.mantissaBits := one_le_pow₀ one_le_two
    have bound : (0 : ℚ) ≤ (2 ^ spec.mantissaBits - 1) * 2 ^ maxExponent spec :=
      mul_nonneg (sub_nonneg.mpr one) (by positivity)
    simpa [value] using bound

/-- A number of the format that is nearer than half a unit of the largest ones keeps what is rounded
from overflowing. -/
theorem Rounds.fits_of_near (hmin : spec.minExponent ≤ 0)
    (hmax : spec.minExponent ≤ maxExponent spec) (h : Rounds spec q u) (hc : Canonical spec v)
    (hf : Fits spec v) (near : 2 * |value v - q| < 2 ^ maxExponent spec) : Fits spec u := by
  refine fits_of_value_lt hmax h.canonical ?_
  have nearest := h.nearest _ (representable_value hc hmin)
  have largest := abs_value_le hc hf
  have split : (2 : ℚ) ^ (maxExponent spec + spec.mantissaBits) =
      (2 ^ spec.mantissaBits - 1) * 2 ^ maxExponent spec + 2 ^ maxExponent spec := by
    rw [two_zpow_split (a := maxExponent spec) spec.mantissaBits rfl]
    ring
  have away : |value u| ≤ |value v| + |value v - q| + |value u - q| := by
    have triangle := abs_sub_le (value u) q (value v)
    have back := abs_sub_abs_le_abs_sub (value u) (value v)
    rw [abs_sub_comm q] at triangle
    linarith
  rw [split]
  linarith

/-- The exact significand `t` fills the digits of the format, or the unit is the smallest one. -/
def Filled (spec : Format) (t : ℚ) (e : Int) : Prop :=
  2 ^ spec.mantissaBitsWithoutImplicit ≤ t ∨ e = spec.minExponent

/-- On the grid of a filled significand, the nearest multiple of the unit is nearer than any number
of the format. -/
theorem nearest_of_filled {t : ℚ} {e : Int} {m : Nat} (ht : Filled spec t e)
    (hm : |(m : ℚ) - t| ≤ 1 / 2) {b : ℚ} (hb : Representable spec b) :
    |m * 2 ^ e - t * 2 ^ e| ≤ |b - t * 2 ^ e| := by
  obtain ⟨k, e', hk, hmin, rfl⟩ := hb
  have unit : (0 : ℚ) < 2 ^ e := by positivity
  have integer (n : ℤ) : |(m : ℚ) - t| ≤ |(n : ℚ) - t| := by
    rcases eq_or_ne n m with rfl | hne
    · simp
    · have apart : (1 : ℚ) ≤ |(n : ℚ) - m| := by
        exact_mod_cast Int.one_le_abs (sub_ne_zero.mpr hne)
      have split := abs_sub_le (n : ℚ) t m
      rw [abs_sub_comm t] at split
      linarith
  rw [← sub_mul, abs_mul, abs_of_pos unit]
  -- A number with a smaller unit lies below the filled significands, and then the least of them,
  -- which is an integer, lies between it and the exact one.
  rcases le_or_gt e e' with he | he
  · have scaled : (k : ℚ) * 2 ^ e' - t * 2 ^ e = ((k * 2 ^ (e' - e).toNat : ℤ) - t) * 2 ^ e := by
      rw [two_zpow_split (a := e) (b := e') (e' - e).toNat (by omega)]
      push_cast
      ring
    rw [scaled, abs_mul, abs_of_pos unit]
    exact mul_le_mul_of_nonneg_right (integer _) unit.le
  · have full : 2 ^ spec.mantissaBitsWithoutImplicit ≤ t := ht.resolve_right (by omega)
    have top : (k : ℚ) * 2 ^ e' ≤ 2 ^ spec.mantissaBitsWithoutImplicit * 2 ^ e := by
      have hk' : (k : ℚ) ≤ 2 ^ spec.mantissaBits := by
        exact_mod_cast (le_abs_self k).trans hk
      calc (k : ℚ) * 2 ^ e' ≤ 2 ^ spec.mantissaBits * 2 ^ e' := by gcongr
        _ = 2 ^ spec.mantissaBitsWithoutImplicit * 2 ^ (e' + 1) := by
          rw [Format.mantissaBits, pow_add, zpow_add_one₀ two_ne_zero]
          ring
        _ ≤ 2 ^ spec.mantissaBitsWithoutImplicit * 2 ^ e := by
          gcongr
          · norm_num
          · omega
    have near := integer (2 ^ spec.mantissaBitsWithoutImplicit)
    push_cast at near
    rw [abs_of_nonpos (by linarith : (2 : ℚ) ^ spec.mantissaBitsWithoutImplicit - t ≤ 0)] at near
    have low := mul_le_mul_of_nonneg_right full unit.le
    calc |(m : ℚ) - t| * 2 ^ e
        ≤ -(2 ^ spec.mantissaBitsWithoutImplicit - t) * 2 ^ e :=
          mul_le_mul_of_nonneg_right near unit.le
      _ ≤ -(k * 2 ^ e' - t * 2 ^ e) := by linarith
      _ ≤ |k * 2 ^ e' - t * 2 ^ e| := neg_le_abs _

theorem shiftToTargetExponent_of_small {m : Nat} {e : Int} (hm : m < 2 ^ spec.mantissaBits)
    (he : spec.minExponent ≤ e) :
    shiftToTargetExponent spec m e .exact = (⟨m, false, false⟩, e) := by
  have log : m.log2 + 1 ≤ spec.mantissaBits := by
    rcases Nat.eq_zero_or_pos m with rfl | pos
    · simp [Format.mantissaBits]
    · exact (Nat.log2_lt pos.ne').mpr hm
  have none : (spec.targetExponent (totalExponent m e) - e).toNat = 0 := by
    simp only [Format.targetExponent, totalExponent]
    omega
  simp only [shiftToTargetExponent, shiftToExponent, none]
  exact Prod.ext rfl (by simp)

theorem shiftToTargetExponent_of_carry {e : Int} (he : spec.minExponent ≤ e) :
    shiftToTargetExponent spec (2 ^ spec.mantissaBits) e .exact =
      (⟨2 ^ spec.mantissaBitsWithoutImplicit, false, false⟩, e + 1) := by
  have one : (spec.targetExponent (totalExponent (2 ^ spec.mantissaBits) e) - e).toNat = 1 := by
    simp only [Format.targetExponent, totalExponent, Nat.log2_two_pow]
    omega
  have half : 2 ^ spec.mantissaBits = 2 * 2 ^ spec.mantissaBitsWithoutImplicit := by
    rw [Format.mantissaBits, Nat.pow_add, pow_one]
  simp only [shiftToTargetExponent, shiftToExponent, one]
  refine Prod.ext ?_ rfl
  simp [HShiftRight.hShiftRight, Nat.repeat, ExtendedMantissa.shiftRightOne,
    ExtendedMantissa.ofMantissaAndAccuracy, half]

def assemble (s : Sign) (p : ExtendedMantissa × Int) : UnpackedFloat :=
  if h : p.1.mantissa = 0 then .zero s else .finite s p.1.mantissa p.2 (Nat.pos_of_ne_zero h)

theorem roundWithAccuracy_eq (s : Sign) (m : Nat) (e : Int) (acc : Accuracy) :
    roundWithAccuracy spec s m e acc = assemble s (shiftToTargetExponent spec
      (shiftToTargetExponent spec m e acc).1.roundedMantissa
      (shiftToTargetExponent spec m e acc).2 .exact) := rfl

/-- The value of a canonical number with the given sign and significand. A significand that has been
rounded up to one digit more is halved. -/
theorem roundWithAccuracy_of_rounded {s : Sign} {m n : Nat} {e e' : Int} {acc : Accuracy}
    {em : ExtendedMantissa} (hs : shiftToTargetExponent spec m e acc = (em, e'))
    (hn : em.roundedMantissa = n) (hle : n ≤ 2 ^ spec.mantissaBits) (hmin : spec.minExponent ≤ e')
    (hf : 2 ^ spec.mantissaBitsWithoutImplicit ≤ n ∨ e' = spec.minExponent) :
    Canonical spec (roundWithAccuracy spec s m e acc) ∧
      (roundWithAccuracy spec s m e acc).isFinite = true ∧
        value (roundWithAccuracy spec s m e acc) = (s.apply n : ℤ) * 2 ^ e' := by
  have half : 2 ^ spec.mantissaBits = 2 * 2 ^ spec.mantissaBitsWithoutImplicit := by
    rw [Format.mantissaBits, Nat.pow_add, pow_one]
  have pos := Nat.two_pow_pos spec.mantissaBitsWithoutImplicit
  rw [roundWithAccuracy_eq, hs]
  simp only [hn]
  rcases hle.lt_or_eq with hlt | rfl
  · rw [shiftToTargetExponent_of_small hlt hmin, assemble]
    split
    next hz =>
      simp only at hz
      refine ⟨trivial, rfl, ?_⟩
      cases s <;> simp [value, Sign.apply, hz]
    next => exact ⟨⟨hlt, hmin, hf⟩, rfl, rfl⟩
  · rw [shiftToTargetExponent_of_carry hmin, assemble, dif_neg pos.ne']
    refine ⟨⟨by simp only [half]; omega, by omega, Or.inl le_rfl⟩, rfl, ?_⟩
    cases s <;> simp only [value, Sign.apply, half, zpow_add_one₀ (two_ne_zero (α := ℚ))] <;>
      push_cast <;> ring

def signed (s : Sign) (q : ℚ) : ℚ :=
  match s with
  | .negative => -q
  | .positive => q

theorem cast_apply (s : Sign) (n : Nat) : ((s.apply n : ℤ) : ℚ) = signed s n := by
  cases s <;> simp [Sign.apply, signed]

theorem signed_mul (s : Sign) (a b : ℚ) : signed s (a * b) = signed s a * b := by
  cases s <;> simp [signed]

theorem value_finite (s : Sign) (m : Nat) (e : Int) (h : 0 < m) :
    value (.finite s m e h) = signed s (m * 2 ^ e) := by
  rw [value, cast_apply, signed_mul]

theorem filled_of_target {m k : Nat} {e : Int} {t : ℚ} (hm : (m : ℚ) ≤ t) (ht : t < m + 1)
    (hk : spec.targetExponent (totalExponent m e) = e + k) :
    t / 2 ^ k < 2 ^ spec.mantissaBits ∧ Filled spec (t / 2 ^ k) (e + k) := by
  have scale : (0 : ℚ) < 2 ^ k := by positivity
  have hk' := hk
  simp only [Format.targetExponent, totalExponent] at hk'
  constructor
  · rw [div_lt_iff₀ scale, ← pow_add]
    have above : (m : ℚ) + 1 ≤ 2 ^ (m.log2 + 1) := by
      exact_mod_cast Nat.lt_log2_self
    have more : (2 : ℚ) ^ (m.log2 + 1) ≤ 2 ^ (spec.mantissaBits + k) :=
      pow_le_pow_right₀ one_le_two (by omega)
    linarith
  · rcases eq_or_ne (e + k) spec.minExponent with hmin | hmin
    · exact Or.inr hmin
    · have log : m.log2 = spec.mantissaBitsWithoutImplicit + k := by
        simp only [Format.mantissaBits] at hk'
        omega
      have ne : m ≠ 0 := by
        rintro rfl
        have := spec.hm
        rw [Nat.log2_zero] at log
        omega
      have below : (2 : ℚ) ^ (spec.mantissaBitsWithoutImplicit + k) ≤ m := by
        rw [← log]
        exact_mod_cast Nat.log2_self_le ne
      refine Or.inl ?_
      rw [le_div_iff₀ scale, ← pow_add]
      exact below.trans hm

theorem nearest_signed {t : ℚ} {e : Int} {n : Nat} (s : Sign) (ht : Filled spec t e)
    (hn : |(n : ℚ) - t| ≤ 1 / 2) {b : ℚ} (hb : Representable spec b) :
    |signed s (n * 2 ^ e) - signed s (t * 2 ^ e)| ≤ |b - signed s (t * 2 ^ e)| := by
  cases s with
  | positive => exact nearest_of_filled ht hn hb
  | negative =>
    have near := nearest_of_filled ht hn hb.neg
    rw [← abs_neg, ← abs_neg (-b - t * 2 ^ e)] at near
    simp only [signed]
    rwa [show -((n : ℚ) * 2 ^ e) - -(t * 2 ^ e) = -(n * 2 ^ e - t * 2 ^ e) by ring,
      show b - -(t * 2 ^ e) = -(-b - t * 2 ^ e) by ring]

/-- A significand is rounded together with its residual bits, if its unit is not too large. -/
theorem rounds_roundWithAccuracy (s : Sign) {m : Nat} {e : Int} {acc : Accuracy} {t : ℚ}
    (ht : Describes (.ofMantissaAndAccuracy m acc) t)
    (he : e ≤ spec.targetExponent (totalExponent m e)) :
    Rounds spec (signed s (t * 2 ^ e)) (roundWithAccuracy spec s m e acc) := by
  obtain ⟨k, hk⟩ := Int.eq_ofNat_of_zero_le (sub_nonneg.mpr he)
  have target : spec.targetExponent (totalExponent m e) = e + k := by omega
  have shift : shiftToTargetExponent spec m e acc =
      (ExtendedMantissa.ofMantissaAndAccuracy m acc >>> k, e + k) := by
    simp [shiftToTargetExponent, shiftToExponent, target]
  have mantissa : (ExtendedMantissa.ofMantissaAndAccuracy m acc).mantissa = m := by
    unfold ExtendedMantissa.ofMantissaAndAccuracy
    split <;> rfl
  have bounds := ht.bounds
  rw [mantissa] at bounds
  obtain ⟨lt, filled⟩ := filled_of_target bounds.1 bounds.2 target
  have near := (ht.shiftRight k).rounded
  obtain ⟨n, hn⟩ : ∃ n, (ExtendedMantissa.ofMantissaAndAccuracy m acc >>> k).roundedMantissa = n :=
    ⟨_, rfl⟩
  rw [hn] at near
  obtain ⟨lower, upper⟩ := abs_le.mp near
  have hle : n ≤ 2 ^ spec.mantissaBits := by
    have : (n : ℚ) < 2 ^ spec.mantissaBits + 1 := by linarith
    exact Nat.lt_succ_iff.mp (by exact_mod_cast this)
  have hf : 2 ^ spec.mantissaBitsWithoutImplicit ≤ n ∨ e + k = spec.minExponent := by
    refine filled.imp_left fun full => ?_
    have : (2 : ℚ) ^ spec.mantissaBitsWithoutImplicit < n + 1 := by linarith
    exact Nat.lt_succ_iff.mp (by exact_mod_cast this)
  have hmin : spec.minExponent ≤ e + k := by
    rw [← target]
    exact le_max_right _ _
  obtain ⟨canonical, finite, eq⟩ :=
    roundWithAccuracy_of_rounded (s := s) shift hn hle hmin hf
  refine ⟨canonical, finite, fun b hb => ?_⟩
  have exact_eq : t * 2 ^ e = t / 2 ^ k * 2 ^ (e + k) := by
    rw [two_zpow_split (a := e) k rfl, ← mul_assoc, div_mul_cancel₀ _ (by positivity)]
  rw [eq, cast_apply, ← signed_mul, exact_eq]
  exact nearest_signed s filled near hb

end Argand.Machine
