import Argand.Proofs.MachineNumber

namespace Argand.Machine

open Float.Model (Format UnpackedFloat)

variable {spec : Format} {y : Float} {u v : UnpackedFloat} {q r : ℚ} {a a' : ℤ} {b b' : ℕ}

/-- A fraction over a power of two. -/
def BinaryFraction (q : ℚ) : Prop := ∃ k, q.den ∣ 2 ^ k

theorem BinaryFraction.add (hq : BinaryFraction q) (hr : BinaryFraction r) :
    BinaryFraction (q + r) := by
  obtain ⟨i, hi⟩ := hq
  obtain ⟨j, hj⟩ := hr
  exact ⟨i + j, (Rat.add_den_dvd q r).trans (by rw [pow_add]; exact mul_dvd_mul hi hj)⟩

theorem BinaryFraction.mul (hq : BinaryFraction q) (hr : BinaryFraction r) :
    BinaryFraction (q * r) := by
  obtain ⟨i, hi⟩ := hq
  obtain ⟨j, hj⟩ := hr
  exact ⟨i + j, (Rat.mul_den_dvd q r).trans (by rw [pow_add]; exact mul_dvd_mul hi hj)⟩

theorem binaryFraction_intCast (k : ℤ) : BinaryFraction k :=
  ⟨0, dvd_rfl⟩

theorem binaryFraction_zpow (e : ℤ) : BinaryFraction (2 ^ e) := by
  cases e with
  | ofNat n =>
    have whole : (2 : ℚ) ^ (Int.ofNat n) = ((2 ^ n : ℤ) : ℚ) := by
      rw [Int.ofNat_eq_natCast, zpow_natCast]
      norm_cast
    rw [whole]
    exact binaryFraction_intCast _
  | negSucc n =>
    refine ⟨n + 1, ?_⟩
    have fraction : (2 : ℚ) ^ (Int.negSucc n) = Rat.divInt 1 (2 ^ (n + 1) : ℕ) := by
      rw [zpow_negSucc, Rat.divInt_eq_div]
      push_cast
      rw [one_div]
    rw [fraction]
    exact_mod_cast Rat.den_dvd 1 (2 ^ (n + 1) : ℕ)

theorem Representable.binaryFraction (h : Representable spec q) : BinaryFraction q := by
  obtain ⟨k, e, -, -, rfl⟩ := h
  exact (binaryFraction_intCast k).mul (binaryFraction_zpow e)

/-- A quotient of integers of 53 digits that is a fraction over a power of two is not rounded. -/
theorem representable_quotient (ha : a.natAbs < 2 ^ 53) (hb : 0 < b) (hb' : b < 2 ^ 53)
    (h : BinaryFraction (a / b)) : Representable .binary64 (a / b) := by
  obtain ⟨k, hk⟩ := h
  obtain ⟨i, -, hi⟩ := (Nat.dvd_prime_pow Nat.prime_two).mp hk
  have quotient : (a / b : ℚ) = Rat.divInt a b := by
    rw [Rat.divInt_eq_div]
    rfl
  have den : ((a / b : ℚ).den : ℤ) ∣ b := by
    rw [quotient]
    exact Rat.den_dvd a b
  have small : 2 ^ i < 2 ^ 53 := by
    rw [← hi]
    exact (Nat.le_of_dvd hb (by exact_mod_cast den)).trans_lt hb'
  have digits : i < 53 := (Nat.pow_lt_pow_iff_right (by decide)).mp small
  have num : (a / b : ℚ).num.natAbs ≤ 2 ^ 53 := by
    have divides : (a / b : ℚ).num ∣ a := by
      rw [quotient]
      exact Rat.num_dvd a (by exact_mod_cast hb.ne')
    by_cases zero : a = 0
    · simp [zero]
    · exact (Nat.le_of_dvd (by omega) (Int.natAbs_dvd_natAbs.mpr divides)).trans ha.le
  refine ⟨(a / b : ℚ).num, -i, ?_, ?_, ?_⟩
  · rw [← Int.natCast_natAbs]
    exact_mod_cast num
  · have least : (Format.binary64).minExponent = -1074 := by decide
    omega
  · rw [zpow_neg, zpow_natCast, ← div_eq_mul_inv]
    nth_rewrite 1 [← Rat.num_div_den (a / b : ℚ)]
    rw [hi]
    push_cast
    rfl

/-- No quotient of integers of 53 digits lies in the middle between two numbers of the format. -/
theorem Rounds.value_unique (ha : a.natAbs < 2 ^ 53) (hb : 0 < b) (hb' : b < 2 ^ 53)
    (hu : Rounds .binary64 (a / b) u) (hv : Rounds .binary64 (a / b) v) : value u = value v := by
  have digits := representable_value hu.canonical (by decide)
  have digits' := representable_value hv.canonical (by decide)
  have near := le_antisymm (hu.nearest _ digits') (hv.nearest _ digits)
  rcases abs_eq_abs.mp near with same | opposite
  · linarith
  -- In the middle of two fractions over powers of two the quotient is one too, hence a number of the
  -- format, and both are that number.
  · have half : BinaryFraction (1 / 2) := ⟨1, by norm_num⟩
    have middle : (a / b : ℚ) = (value u + value v) * (1 / 2) := by linarith
    have fraction : BinaryFraction (a / b) := by
      rw [middle]
      exact (digits.binaryFraction.add digits'.binaryFraction).mul half
    have representable := representable_quotient ha hb hb' fraction
    rw [hu.eq_of_representable representable, hv.eq_of_representable representable]

theorem toRat_ofInt (ha : a.natAbs < 2 ^ 53) : toRat (Float.ofInt a) = a :=
  le_antisymm (within_ofInt ha).le (within_ofInt ha).ge

theorem toRat_ofNat (hb : b < 2 ^ 53) : toRat (Float.ofNat b) = b :=
  le_antisymm (within_ofNat hb).le (within_ofNat hb).ge

theorem zero_div_of_pos (hy : 0 < toRat y) : 0 / y = 0 := by
  have divided : (0 / y : Float) =
      .ofModel (.pack (UnpackedFloat.div .binary64 (.zero .positive) y.toModel.unpack)) := rfl
  rw [toRat] at hy
  rw [divided]
  cases divisor : y.toModel.unpack with
  | finite s m e hm =>
    rw [divisor] at hy
    cases s with
    | positive => rfl
    | negative =>
      have pos : (0 : ℚ) < m * 2 ^ e := by positivity
      rw [value_negative] at hy
      linarith
  | _ =>
    rw [divisor] at hy
    exact absurd hy (lt_irrefl 0)

/-- Integers of 53 digits are divided with one rounding. -/
theorem rounds_quotient (ha : a.natAbs < 2 ^ 53) (hb : 0 < b) (hb' : b < 2 ^ 53) :
    Rounds .binary64 (a / b) (Float.ofInt a / Float.ofNat b).toModel.unpack := by
  have ne : value (Float.ofNat b).toModel.unpack ≠ 0 := by
    rw [← toRat, toRat_ofNat hb']
    exact_mod_cast hb.ne'
  have rounds : Rounds .binary64 _ _ := rounds_div (canonical_float (Float.ofInt a))
    (canonical_float (Float.ofNat b)) (within_ofInt ha).finite (within_ofNat hb').finite ne
  rw [← toRat, ← toRat, toRat_ofInt ha, toRat_ofNat hb'] at rounds
  have storable := storable_natCast ha
  have bound : |(a / b : ℚ)| ≤ a.natAbs := by
    rw [abs_div, Nat.abs_cast, Nat.cast_natAbs, Int.cast_abs]
    exact div_le_self (abs_nonneg _) (by exact_mod_cast hb)
  obtain ⟨low, high⟩ := abs_le.mp bound
  have same := unpack_of_rounds rounds storable.neg storable low high
  have divided : (Float.ofInt a / Float.ofNat b).toModel.unpack =
      UnpackedFloat.div .binary64 (Float.ofInt a).toModel.unpack (Float.ofNat b).toModel.unpack :=
    same
  rw [divided]
  exact rounds

theorem toRat_quotient_ne_zero (ha : a.natAbs < 2 ^ 53) (hb : 0 < b) (hb' : b < 2 ^ 53)
    (hne : a ≠ 0) : toRat (Float.ofInt a / Float.ofNat b) ≠ 0 := by
  have rounds := rounds_quotient ha hb hb'
  have least : Representable .binary64 (1 / 2 ^ 53) := ⟨1, -53, by decide, by decide, by norm_num⟩
  have positive : (0 : ℚ) < b := by exact_mod_cast hb
  have bounded : (b : ℚ) ≤ 2 ^ 53 := by exact_mod_cast hb'.le
  rw [toRat]
  rcases hne.lt_or_gt with neg | pos
  · have numerator : (a : ℚ) ≤ -1 := by exact_mod_cast Int.le_sub_one_of_lt neg
    have small : (a / b : ℚ) ≤ -(1 / 2 ^ 53) := by
      rw [div_le_iff₀ positive]
      linarith
    have value := rounds.le_of_le least.neg small
    linarith
  · have numerator : (1 : ℚ) ≤ a := by exact_mod_cast pos
    have large : (1 / 2 ^ 53 : ℚ) ≤ a / b := by
      rw [le_div_iff₀ positive]
      linarith
    have value := rounds.ge_of_ge least large
    linarith

/-- A division of integers of 53 digits depends on their exact quotient only. -/
theorem quotient_congr (ha : a.natAbs < 2 ^ 53) (hb : 0 < b) (hb' : b < 2 ^ 53)
    (hc : a'.natAbs < 2 ^ 53) (hd : 0 < b') (hd' : b' < 2 ^ 53) (h : a * b' = a' * b) :
    Float.ofInt a / Float.ofNat b = Float.ofInt a' / Float.ofNat b' := by
  have pos : (b : ℚ) ≠ 0 := by exact_mod_cast hb.ne'
  have pos' : (b' : ℚ) ≠ 0 := by exact_mod_cast hd.ne'
  by_cases zero : a = 0
  · have zero' : a' = 0 := by
      rw [zero, zero_mul] at h
      exact (mul_eq_zero.mp h.symm).resolve_right (by exact_mod_cast hb.ne')
    subst zero zero'
    have positive : 0 < toRat (Float.ofNat b) := by
      rw [toRat_ofNat hb']
      exact_mod_cast hb
    have positive' : 0 < toRat (Float.ofNat b') := by
      rw [toRat_ofNat hd']
      exact_mod_cast hd
    exact (zero_div_of_pos positive).trans (zero_div_of_pos positive').symm
  · have rounds := rounds_quotient ha hb hb'
    have rounds' := rounds_quotient hc hd hd'
    have quotient : (a' / b' : ℚ) = a / b := by
      rw [div_eq_div_iff pos' pos]
      exact_mod_cast h.symm
    rw [quotient] at rounds'
    exact float_eq_of_toRat_eq rounds.finite rounds'.finite
      (rounds.value_unique ha hb hb' rounds') (toRat_quotient_ne_zero ha hb hb' zero)

end Argand.Machine
