import Argand.Proofs.ShortestDecimal

namespace Argand

open Float.Model (UnpackedFloat)
open Float.Model.UnpackedFloat (unpackExponent)
open Machine

/-- Halfway from the largest machine number to the power of two above it. This tie goes to the even
neighbour, so that numbers are rounded to infinity from here on. -/
def overflowBound : ℚ := 2 ^ (1024 : ℤ) - 2 ^ (970 : ℤ)

theorem overflowBound_eq : overflowBound = (2 ^ 53 - 1 / 2) * 2 ^ (971 : ℤ) := by
  rw [overflowBound, two_zpow_split (a := 971) 53 (by norm_num), two_zpow_split (b := 971) 1
    (a := 970) (by norm_num)]
  ring

theorem overflowBound_lt : overflowBound < overflow :=
  sub_lt_self _ (by positivity)

theorem two_zpow_lt_overflowBound : (2 : ℚ) ^ (1023 : ℤ) < overflowBound := by
  rw [overflowBound_eq, two_zpow_split (b := 1023) 52 (a := 971) (by norm_num)]
  gcongr
  norm_num

/-- What has 53 digits in a unit below the topmost one is below the bound. -/
theorem lt_overflowBound {q : ℚ} {e : ℤ} (he : e ≤ 970) (h : q < 2 ^ 53 * 2 ^ e) :
    q < overflowBound := by
  refine lt_trans (h.trans_le ?_) two_zpow_lt_overflowBound
  rw [two_zpow_split (b := 1023) 53 (a := 970) (by norm_num)]
  gcongr
  exact one_le_two

/-- What has 53 digits in a unit above the topmost one is above the bound. -/
theorem overflowBound_le {q : ℚ} {e : ℤ} (he : 972 ≤ e) (h : 2 ^ 52 * 2 ^ e ≤ q) :
    overflowBound ≤ q := by
  refine overflowBound_lt.le.trans (le_trans ?_ h)
  rw [overflow, two_zpow_split (b := 1024) 52 (a := 972) (by norm_num)]
  gcongr
  exact one_le_two

namespace Binary64

variable {num den bits k : Nat}

theorem toNat_unpackExponent (word : BitVec 64) :
    (@unpackExponent .binary64 word).toNat = word.toNat / 2 ^ 52 % 2 ^ 11 :=
  congrArg (· % 2 ^ 11) (Nat.shiftRight_eq_div_pow word.toNat 52)

theorem isFinite_unpack {word : BitVec 64} (h : word.toNat < infinityBits) :
    (UnpackedFloat.unpack .binary64 word).isFinite = true := by
  have exponent : @unpackExponent .binary64 word ≠ -1#11 := by
    intro full
    have stored := toNat_unpackExponent word
    have small : word.toNat / 2 ^ 52 < 2047 := Nat.div_lt_of_lt_mul h
    rw [full, Nat.mod_eq_of_lt (small.trans (by decide))] at stored
    rw [← stored] at small
    exact absurd small (by decide)
  unfold UnpackedFloat.unpack
  dsimp only
  rw [if_neg exponent]
  split
  next => split <;> rfl
  next => rfl

/-- The words below that of infinity stand for finite numbers. -/
theorem isFinite_ofBits_iff (h : bits ≤ infinityBits) :
    (Float.ofBits bits.toUInt64).isFinite = true ↔ bits < infinityBits := by
  constructor
  · intro finite
    refine h.lt_of_ne ?_
    rintro rfl
    exact absurd finite (by decide)
  · intro lt
    have word : bits.toUInt64.toBitVec.toNat = bits := Nat.mod_eq_of_lt (lt.trans (by decide))
    show (Float.ofBits bits.toUInt64).toModel.unpack.isFinite = true
    rw [unpack_ofBits]
    exact isFinite_unpack (by rwa [word])

/-- A quotient is rounded beyond an odd number from halfway to the next one on. -/
theorem odd_lt_roundQuotient_iff (hd : 0 < den) (hk : k % 2 = 1) :
    k < roundQuotient num den ↔ (k : ℚ) + 1 / 2 ≤ num / den := by
  have dpos : (0 : ℚ) < den := by exact_mod_cast hd
  have halves : (k : ℚ) + 1 / 2 ≤ num / den ↔ (2 * k + 1) * den ≤ 2 * num := by
    rw [le_div_iff₀ dpos, ← Nat.cast_le (α := ℚ)]
    push_cast
    constructor <;> intro h <;> linarith
  have split := Nat.div_add_mod num den
  have lt := Nat.mod_lt num hd
  rw [halves]
  unfold roundQuotient
  dsimp only
  generalize num / den = q at *
  generalize num % den = r at *
  rcases lt_trichotomy q k with below | rfl | above
  · have step := Nat.mul_le_mul_left den (Nat.succ_le_of_lt below)
    rw [Nat.mul_succ] at step
    have far : ¬ (2 * k + 1) * den ≤ 2 * num := by nlinarith
    refine iff_of_false ?_ far
    split <;> omega
  · have near : (2 * q + 1) * den ≤ 2 * num ↔ den ≤ 2 * r := by
      rw [← split]
      constructor <;> intro h <;> nlinarith
    rw [near]
    split
    next h => simpa using Nat.compare_eq_lt.mp h
    next h => 
      have := Nat.compare_eq_eq.mp h
      omega
    next h =>
      have := Nat.compare_eq_gt.mp h
      omega
  · have step := Nat.mul_le_mul_left den (Nat.succ_le_of_lt above)
    rw [Nat.mul_succ] at step
    have reached : (2 * k + 1) * den ≤ 2 * num := by nlinarith
    refine iff_of_true ?_ reached
    split <;> omega

/-- A quotient is rounded to a finite number below the bound, and to infinity from there on. -/
theorem isFinite_ofQuotient_iff (hn : 0 < num) (hd : 0 < den) :
    (ofQuotient num den).isFinite = true ↔ (num : ℚ) / den < overflowBound := by
  obtain ⟨unit, hunit, low, high⟩ := exists_unit hn hd
  obtain ⟨dpos, scaled⟩ := inUnits_spec num hd (unitExponent num den)
  unfold ofQuotient
  dsimp only
  rw [isFinite_ofBits_iff (min_le_right _ _), min_lt_iff, or_iff_left (lt_irrefl _)]
  have beyond {k : Nat} (hk : k % 2 = 1) :
      k < roundQuotient (inUnits num den (unitExponent num den)).1
        (inUnits num den (unitExponent num den)).2 ↔
      (k : ℚ) + 1 / 2 ≤ num / den / 2 ^ unitExponent num den := by
    rw [odd_lt_roundQuotient_iff dpos hk, scaled]
  generalize roundQuotient _ _ = r at *
  generalize unitExponent num den = e at *
  generalize (num : ℚ) / den = q at *
  have upos : (0 : ℚ) < 2 ^ e := by positivity
  have least : minExponent ≤ e := hunit ▸ le_max_left _ _
  have filled : q < 2 ^ 53 * 2 ^ e := by
    refine high.trans_le ?_
    gcongr
    · exact one_le_two
    · exact hunit ▸ le_max_right _ _
  obtain ⟨field, rfl⟩ : ∃ field : Nat, e = field + minExponent :=
    ⟨(e - minExponent).toNat, by omega⟩
  rw [add_sub_cancel_right, Int.toNat_natCast, Nat.shiftLeft_eq, infinityBits]
  simp only [minExponent] at *
  rcases lt_trichotomy field 2045 with below | rfl | above
  · -- Even a carry into the exponent stays below infinity.
    have bounded : q < overflowBound := lt_overflowBound (by omega) filled
    have carry : ¬ 2 ^ 53 + 1 < r := by
      rw [beyond (by decide), le_div_iff₀ upos, not_le]
      refine filled.trans ?_
      gcongr
      norm_num
    exact iff_of_true (by omega) bounded
  · -- In the topmost unit a carry makes infinity.
    have carry : 2 ^ 53 - 1 < r ↔ overflowBound ≤ q := by
      rw [beyond (by decide), le_div_iff₀ upos, overflowBound_eq]
      norm_num
    refine Iff.trans ?_ (carry.not.trans not_le)
    omega
  · have unit_eq : ((field : ℤ) + -1074) = unit := by omega
    have large : overflowBound ≤ q := overflowBound_le (by omega) low
    have full : 2 ^ 52 - 1 < r := by
      rw [beyond (by decide), le_div_iff₀ upos, unit_eq]
      refine le_trans ?_ low
      gcongr
      norm_num
    exact iff_of_false (by omega) (not_lt.mpr large)

end Binary64

/-- A decimal overflows from half a unit above the largest machine number on. -/
theorem Decimal.isFinite_toFloat_iff (d : Decimal) :
    d.toFloat.isFinite = true ↔ d.toRat < overflowBound := by
  unfold toFloat
  split
  next small =>
    have less : d.toRat < 2 ^ (1023 : ℤ) := by
      rcases Bool.or_eq_true_iff.mp small with zero | tiny
      · rw [toRat, of_decide_eq_true zero, Nat.cast_zero, zero_mul]
        positivity
      · exact (toRat_lt_of_underflows tiny).trans (zpow_lt_zpow_right₀ one_lt_two (by norm_num))
    exact iff_of_true (by decide) (less.trans two_zpow_lt_overflowBound)
  next visible =>
    have hc : 0 < d.coefficient := by
      refine Nat.pos_of_ne_zero fun zero => visible ?_
      simp [zero]
    split
    next large =>
      exact iff_of_false (by decide)
        (not_lt.mpr (overflowBound_lt.le.trans (overflow_le_toRat hc large)))
    next =>
      split
      next whole =>
        rw [← quotient_of_nonneg whole]
        exact Binary64.isFinite_ofQuotient_iff
          (Nat.mul_pos hc (Nat.pow_pos (by decide))) one_pos
      next broken =>
        rw [← quotient_of_neg broken]
        exact Binary64.isFinite_ofQuotient_iff hc (Nat.pow_pos (by decide))

end Argand
