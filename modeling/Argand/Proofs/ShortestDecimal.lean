import Argand.Proofs.ExactQuotient

namespace Argand

open Float.Model (Format UnpackedFloat)
open Float.Model.UnpackedFloat (Sign)
open Machine

/-- A finite number without a sign. -/
structure Plain (x : Float) : Prop where
  finite : x.isFinite = true
  unsigned : Scalar.signBit x = false

variable {x y : Float} {d : Decimal} {m : Nat} {e : Int} {hm : 0 < m}

theorem signBit_eq (x : Float) : Scalar.signBit x = decide (x.toBits.toNat / 2 ^ 63 = 1) := by
  have shift : (x.toBits >>> 63).toNat = x.toBits.toNat / 2 ^ 63 := by
    rw [UInt64.toNat_shiftRight, Nat.shiftRight_eq_div_pow]
    rfl
  change (x.toBits >>> 63 == 1) = _
  rw [← shift, beq_eq_decide]
  simp only [← UInt64.toNat_inj]
  rfl

theorem plain_iff : Plain x ↔ x.toModel.unpack = .zero .positive ∨
    ∃ m e hm, x.toModel.unpack = .finite .positive m e hm := by
  have finite : x.isFinite = x.toModel.unpack.isFinite := rfl
  constructor
  · rintro ⟨hf, hs⟩
    rw [finite] at hf
    rw [signBit_eq] at hs
    match hu : x.toModel.unpack, hf with
    | .zero .positive, _ => exact Or.inl rfl
    | .zero .negative, _ =>
      rw [Binary64.toNat_toBits, hu] at hs
      exact absurd hs (by decide)
    | .finite .positive m e hm, _ => exact Or.inr ⟨m, e, hm, rfl⟩
    | .finite .negative m e hm, _ =>
      obtain ⟨lt, ge, le, -⟩ := Binary64.digits_of_unpack hu
      rw [Binary64.toNat_toBits_finite hu, decide_eq_false_iff_not,
        show (Sign.negative).toBitVec.toNat = 1 from rfl] at hs
      omega
  · rintro (hu | ⟨m, e, hm, hu⟩)
    · refine ⟨by rw [finite, hu]; rfl, ?_⟩
      rw [signBit_eq, Binary64.toNat_toBits, hu]
      decide
    · obtain ⟨lt, ge, le, -⟩ := Binary64.digits_of_unpack hu
      refine ⟨by rw [finite, hu]; rfl, ?_⟩
      rw [signBit_eq, Binary64.toNat_toBits_finite hu, decide_eq_false_iff_not,
        show (Sign.positive).toBitVec.toNat = 0 from rfl]
      omega

theorem unpack_zero : (0.0 : Float).toModel.unpack = .zero .positive := rfl

theorem plain_zero : Plain 0.0 := plain_iff.mpr (Or.inl unpack_zero)

theorem eq_zero_of_unpack (h : x.toModel.unpack = .zero .positive) : x = 0.0 :=
  float_ext (h.trans unpack_zero.symm)

theorem Plain.eq_of_beq (hx : Plain x) (hy : Plain y) (h : (x == y) = true) : x = y := by
  obtain ⟨-, -, same | ⟨-, rfl⟩ | ⟨rfl, -⟩⟩ := Float.beq_iff_ne_nan_and_eq.mp h
  · exact same
  · exact absurd hy.unsigned (by decide)
  · exact absurd hx.unsigned (by decide)

theorem Plain.abs (h : Plain x) : x.abs = x := by
  refine float_ext ((unpack_abs x).trans ?_)
  rcases plain_iff.mp h with hu | ⟨m, e, hm, hu⟩ <;> rw [hu] <;> rfl

theorem Plain.finite_of_beq (hy : Plain y) (h : (x == y) = true) : x.isFinite = true := by
  have compared : x.toModel.unpack.compare y.toModel.unpack = some .eq := beq_iff_eq.mp h
  change x.toModel.unpack.isFinite = true
  rcases plain_iff.mp hy with hv | ⟨m, e, hm, hv⟩ <;> rw [hv] at compared <;>
    match hu : x.toModel.unpack, compared with
    | .zero _, _ => rfl
    | .finite _ _ _ _, _ => rfl

theorem unpack_ofBits (word : UInt64) :
    (Float.ofBits word).toModel.unpack = .unpack .binary64 word.toBitVec :=
  unpack_ofModel_pack (canonical_unpack (by decide) _).1 (canonical_unpack (by decide) _).2

theorem toBits_ofBits {word : UInt64} (h : (Float.ofBits word).isFinite = true) :
    (Float.ofBits word).toBits = word := by
  have finite : (UnpackedFloat.unpack .binary64 word.toBitVec).isFinite = true := by
    rw [← unpack_ofBits]
    exact h
  have valid : Format.binary64.Valid word.toBitVec := by
    refine ⟨fun he hm => ?_⟩
    simp [UnpackedFloat.unpack, he, hm, UnpackedFloat.isFinite] at finite
  exact congrArg UInt64.ofBitVec (UnpackedFloat.pack_unpack_of_valid valid)

/-- A word that is not above that of infinity stands for a number without a sign. -/
theorem plain_ofBits {bits : Nat} (h : bits ≤ Binary64.infinityBits)
    (hf : (Float.ofBits bits.toUInt64).isFinite = true) : Plain (Float.ofBits bits.toUInt64) := by
  refine ⟨hf, ?_⟩
  have small : bits < 2 ^ 63 := h.trans_lt (by decide)
  have word : bits.toUInt64.toNat = bits := Nat.mod_eq_of_lt (small.trans (by decide))
  rw [signBit_eq, toBits_ofBits hf, word, Nat.div_eq_of_lt small]
  rfl

namespace Decimal

def toRat (d : Decimal) : ℚ := d.coefficient * 10 ^ d.exponent

theorem plain_toFloat (d : Decimal) : d.toFloat.isFinite = true → Plain d.toFloat := by
  unfold toFloat
  split
  next => exact fun _ => plain_zero
  next =>
    split
    next => exact fun h => absurd h (by decide)
    next => split <;> exact plain_ofBits (min_le_right _ _)

theorem ten_zpow_le {e : Int} (h : e < 0) : (10 : ℚ) ^ e ≤ 2 ^ (3 * e) := by
  obtain ⟨k, rfl⟩ : ∃ k : Nat, e = -k := ⟨(-e).toNat, by omega⟩
  rw [zpow_mul, show (2 : ℚ) ^ (3 : ℤ) = 8 by norm_num, zpow_neg, zpow_neg, zpow_natCast,
    zpow_natCast]
  exact inv_anti₀ (by positivity) (pow_le_pow_left₀ (by norm_num) (by norm_num) k)

theorem toRat_lt_of_underflows (h : d.underflows = true) : d.toRat < 2 ^ (-1075 : ℤ) := by
  simp only [underflows, Bool.and_eq_true, decide_eq_true_eq] at h
  obtain ⟨neg, small⟩ := h
  calc d.toRat ≤ d.coefficient * 2 ^ (3 * d.exponent) := by
        unfold toRat
        gcongr
        exact ten_zpow_le neg
    _ ≤ 2 ^ (d.coefficient.log2 + 1) * 2 ^ (3 * d.exponent) := by
        gcongr
        exact_mod_cast Nat.lt_log2_self.le
    _ = 2 ^ ((d.coefficient.log2 : ℤ) + 1 + 3 * d.exponent) := by
        rw [← zpow_natCast, ← zpow_add₀ two_ne_zero]
        push_cast
        rfl
    _ < 2 ^ (-1075 : ℤ) := zpow_lt_zpow_right₀ one_lt_two small

theorem overflow_le_toRat (hc : 0 < d.coefficient) (h : overflowExponent ≤ d.exponent) :
    overflow ≤ d.toRat := by
  rw [overflowExponent] at h
  calc overflow ≤ 10 ^ (309 : ℤ) := by
        rw [overflow, show (1024 : ℤ) = 93 * 11 + 1 by norm_num,
          show (309 : ℤ) = 28 * 11 + 1 by norm_num, zpow_add_one₀ two_ne_zero,
          zpow_add_one₀ (by norm_num), zpow_mul, zpow_mul]
        gcongr <;> norm_num
    _ ≤ 10 ^ d.exponent := zpow_le_zpow_right₀ (by norm_num) h
    _ ≤ d.toRat := le_mul_of_one_le_left (by positivity) (by exact_mod_cast hc)

theorem not_underflows (hd : Binary64.Digits m e) (hm : 0 < m) (h : d.toRat = m * 2 ^ e) :
    d.underflows = false := by
  by_contra hu
  have high := toRat_lt_of_underflows (Bool.eq_true_of_not_eq_false hu)
  have low : (2 : ℚ) ^ (-1074 : ℤ) ≤ m * 2 ^ e := by
    calc (2 : ℚ) ^ (-1074 : ℤ) ≤ 2 ^ e := zpow_le_zpow_right₀ one_le_two hd.min_le
      _ ≤ m * 2 ^ e := le_mul_of_one_le_left (by positivity) (by exact_mod_cast hm)
  have order : (2 : ℚ) ^ (-1075 : ℤ) ≤ 2 ^ (-1074 : ℤ) :=
    zpow_le_zpow_right₀ one_le_two (by norm_num)
  linarith

theorem exponent_lt_overflow (hd : Binary64.Digits m e) (hc : 0 < d.coefficient)
    (h : d.toRat = m * 2 ^ e) : d.exponent < overflowExponent := by
  by_contra hge
  have low := overflow_le_toRat hc (not_lt.mp hge)
  have high : (m : ℚ) * 2 ^ e < overflow := by
    calc (m : ℚ) * 2 ^ e < 2 ^ 53 * 2 ^ e := by
          gcongr
          exact_mod_cast hd.lt
      _ ≤ 2 ^ 53 * 2 ^ (971 : ℤ) :=
          mul_le_mul_of_nonneg_left (zpow_le_zpow_right₀ one_le_two hd.le_max) (by positivity)
      _ = overflow := (two_zpow_split 53 (by norm_num)).symm
  linarith

theorem quotient_of_nonneg (h : 0 ≤ d.exponent) :
    ((d.coefficient * Nat.pow 10 d.exponent.toNat : ℕ) : ℚ) / (1 : ℕ) = d.toRat := by
  obtain ⟨k, hk⟩ := Int.eq_ofNat_of_zero_le h
  rw [toRat, hk]
  simp

theorem quotient_of_neg (h : ¬ 0 ≤ d.exponent) :
    (d.coefficient : ℚ) / (Nat.pow 10 (-d.exponent).toNat : ℕ) = d.toRat := by
  obtain ⟨k, hk⟩ : ∃ k : Nat, d.exponent = -k := ⟨(-d.exponent).toNat, by omega⟩
  rw [toRat, hk]
  simp [div_eq_mul_inv]

theorem toFloat_eq (hx : x.toModel.unpack = .finite .positive m e hm) (h : d.toRat = m * 2 ^ e) :
    d.toFloat = x := by
  have digits := Binary64.digits_of_unpack hx
  have pos : (0 : ℚ) < d.toRat := by
    rw [h]
    positivity
  have hc : 0 < d.coefficient := by
    refine Nat.pos_of_ne_zero fun hz => ?_
    simp [toRat, hz] at pos
  have hu := not_underflows digits hm h
  have ho := exponent_lt_overflow digits hc h
  unfold toFloat
  rw [if_neg (by simp [hu, hc.ne']), if_neg (by omega)]
  split
  next hexp => exact Binary64.ofQuotient_eq one_pos hx ((quotient_of_nonneg hexp).trans h)
  next hexp =>
    exact Binary64.ofQuotient_eq (Nat.pow_pos (by decide)) hx ((quotient_of_neg hexp).trans h)

theorem toRat_ofBinary (m : Nat) (e : Int) : (ofBinary m e).toRat = m * 2 ^ e := by
  unfold ofBinary
  split
  next h =>
    obtain ⟨k, rfl⟩ := Int.eq_ofNat_of_zero_le h
    simp [toRat, Nat.shiftLeft_eq]
  next h =>
    obtain ⟨k, rfl⟩ : ∃ k : Nat, e = -k := ⟨(-e).toNat, by omega⟩
    have ten : (10 : ℚ) ^ k = 5 ^ k * 2 ^ k := by
      rw [← mul_pow]
      norm_num
    simp only [toRat, neg_neg, Int.toNat_natCast, zpow_neg, zpow_natCast, ten]
    rw [Nat.pow_eq, mul_inv, ← mul_assoc]
    push_cast
    rw [mul_inv_cancel_right₀ (by positivity)]

/-- The shortest decimal reads back. -/
theorem toFloat_shortest (hx : Plain x) : (shortest x).toFloat = x := by
  rcases plain_iff.mp hx with hu | ⟨m, e, hm, hu⟩
  · rw [eq_zero_of_unpack hu]
    decide
  · have fallback : (ofBinary m e).toFloat = x := toFloat_eq hu (toRat_ofBinary m e)
    simp only [shortest, hx.abs, Binary64.decode_eq hu, if_neg hm.ne']
    cases hs : (searchExponents m e).findSome? _ with
    | none => exact fallback
    | some d =>
      obtain ⟨exponent, -, found⟩ := List.exists_of_findSome?_eq_some hs
      have reads := List.find?_some found
      exact (plain_toFloat d (hx.finite_of_beq reads)).eq_of_beq hx reads

/-- Trailing zeros of the coefficient may stand for the exponent. -/
theorem toFloat_shift {c k : Nat} (h : (toFloat ⟨c, k⟩).isFinite = true) :
    toFloat ⟨c * 10 ^ k, 0⟩ = toFloat ⟨c, k⟩ := by
  rcases Nat.eq_zero_or_pos c with rfl | hc
  · simp [toFloat]
  · have lt : ¬ overflowExponent ≤ (k : ℤ) := by
      intro hle
      rw [toFloat, if_neg (by simp [underflows, hc.ne']), if_pos hle] at h
      exact absurd h (by decide)
    have small : ¬ overflowExponent ≤ 0 := by decide
    simp [toFloat, underflows, hc.ne', lt, small]

end Decimal
end Argand
