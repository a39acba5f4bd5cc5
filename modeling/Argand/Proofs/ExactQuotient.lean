import Argand.Decimal
import Argand.Proofs.MachineNumber

namespace Argand.Binary64

open Float.Model (Format UnpackedFloat)
open Float.Model.UnpackedFloat (Sign)
open Machine

variable {x : Float} {s : Sign} {m : Nat} {e : Int} {hm : 0 < m} {num den : Nat}

/-- The significand and the exponent of a finite number that is not zero. -/
structure Digits (m : Nat) (e : Int) : Prop where
  lt : m < 2 ^ 53
  min_le : minExponent ≤ e
  le_max : e ≤ 971
  filled : 2 ^ 52 ≤ m ∨ e = minExponent

theorem digits_of_unpack (h : x.toModel.unpack = .finite s m e hm) : Digits m e := by
  have hc := canonical_float x
  have hf := fits_float x
  rw [h] at hc hf
  exact ⟨hc.1, hc.2.1, hf, hc.2.2⟩

theorem toNat_toBits (x : Float) :
    x.toBits.toNat = (UnpackedFloat.pack .binary64 x.toModel.unpack).toNat := by
  rw [Float.toBits, Float.Model.unpack, UnpackedFloat.pack_unpack_of_valid x.toModel.valid]
  rfl

theorem toNat_toBits_finite (h : x.toModel.unpack = .finite s m e hm) :
    x.toBits.toNat = s.toBitVec.toNat * 2 ^ 63 + (e + 1074).toNat * 2 ^ 52 + m := by
  have hc := canonical_float x
  have hf := fits_float x
  rw [h] at hc hf
  have hmin : (Format.binary64).minExponent = -1074 := by decide
  rw [toNat_toBits, h, toNat_pack_finite (by decide) hc hf, hmin]
  simp only [sub_neg_eq_add]
  omega

theorem decode_eq (h : x.toModel.unpack = .finite s m e hm) : decode x = (m, e) := by
  obtain ⟨lt, ge, le, filled⟩ := digits_of_unpack h
  simp only [minExponent] at ge filled
  have bits : x.toBits.toNat % (1 <<< 63) = (e + 1074).toNat * 2 ^ 52 + m := by
    rw [toNat_toBits_finite h, show (1 <<< 63 : Nat) = 2 ^ 63 from rfl]
    omega
  simp only [decode, bits, Nat.shiftRight_eq_div_pow, show (1 <<< 52 : Nat) = 2 ^ 52 from rfl,
    minExponent]
  split
  next hz => exact Prod.ext (by simp only; omega) (by simp only; omega)
  next hz => exact Prod.ext (by simp only; omega) (by simp only; omega)

theorem inUnits_spec (num : Nat) (hd : 0 < den) (unit : Int) : 0 < (inUnits num den unit).2 ∧
    ((inUnits num den unit).1 : ℚ) / (inUnits num den unit).2 = num / den / 2 ^ unit := by
  unfold inUnits
  split
  next h =>
    obtain ⟨k, rfl⟩ := Int.eq_ofNat_of_zero_le h
    refine ⟨by simp only [Nat.shiftLeft_eq]; positivity, ?_⟩
    simp [Nat.shiftLeft_eq, div_div]
  next h =>
    obtain ⟨k, rfl⟩ : ∃ k : Nat, unit = -k := ⟨(-unit).toNat, by omega⟩
    refine ⟨hd, ?_⟩
    simp [Nat.shiftLeft_eq]
    ring

/-- The leading digits of numerator and denominator bound a quotient. -/
theorem quotient_bounds (hn : 0 < num) (hd : 0 < den) :
    (2 : ℚ) ^ ((num.log2 : ℤ) - den.log2 - 1) < num / den ∧
      (num : ℚ) / den < 2 ^ ((num.log2 : ℤ) - den.log2 + 1) := by
  have dpos : (0 : ℚ) < den := by exact_mod_cast hd
  have nlow : (2 : ℚ) ^ num.log2 ≤ num := by exact_mod_cast Nat.log2_self_le hn.ne'
  have nhigh : (num : ℚ) < 2 ^ (num.log2 + 1) := by exact_mod_cast Nat.lt_log2_self
  have dlow : (2 : ℚ) ^ den.log2 ≤ den := by exact_mod_cast Nat.log2_self_le hd.ne'
  have dhigh : (den : ℚ) < 2 ^ (den.log2 + 1) := by exact_mod_cast Nat.lt_log2_self
  constructor
  · rw [lt_div_iff₀ dpos]
    calc (2 : ℚ) ^ ((num.log2 : ℤ) - den.log2 - 1) * den
        < 2 ^ ((num.log2 : ℤ) - den.log2 - 1) * 2 ^ (den.log2 + 1) := by gcongr
      _ = 2 ^ num.log2 := by
        rw [← zpow_natCast, ← zpow_natCast, ← zpow_add₀ two_ne_zero]
        congr 1
        push_cast
        ring
      _ ≤ num := nlow
  · rw [div_lt_iff₀ dpos]
    calc (num : ℚ) < 2 ^ (num.log2 + 1) := nhigh
      _ = 2 ^ ((num.log2 : ℤ) - den.log2 + 1) * 2 ^ den.log2 := by
        rw [← zpow_natCast, ← zpow_natCast, ← zpow_add₀ two_ne_zero]
        congr 1
        push_cast
        ring
      _ ≤ 2 ^ ((num.log2 : ℤ) - den.log2 + 1) * den := by gcongr

/-- A number of 53 digits determines its unit. -/
theorem unit_unique {a b : ℤ} {q : ℚ} (ha : 2 ^ 52 * 2 ^ a ≤ q) (hb : q < 2 ^ 53 * 2 ^ b) :
    a ≤ b := by
  have lt : (2 : ℚ) ^ (52 + a) < 2 ^ (53 + b) := by
    rw [zpow_add₀ two_ne_zero, zpow_add₀ two_ne_zero]
    exact_mod_cast ha.trans_lt hb
  have := (zpow_lt_zpow_iff_right₀ one_lt_two).mp lt
  omega

/-- The unit in which a quotient has 53 digits, before it is bounded below. -/
theorem exists_unit (hn : 0 < num) (hd : 0 < den) : ∃ unit,
    unitExponent num den = max minExponent unit ∧ 2 ^ 52 * 2 ^ unit ≤ (num : ℚ) / den ∧
      (num : ℚ) / den < 2 ^ 53 * 2 ^ unit := by
  obtain ⟨low, high⟩ := quotient_bounds hn hd
  obtain ⟨unit, hunit⟩ : ∃ unit : ℤ, (num.log2 : ℤ) - den.log2 - 53 = unit := ⟨_, rfl⟩
  obtain ⟨dpos, scaled⟩ := inUnits_spec num hd unit
  have upos : (0 : ℚ) < 2 ^ unit := by positivity
  rw [show (num.log2 : ℤ) - den.log2 - 1 = 52 + unit by omega, zpow_add₀ two_ne_zero] at low
  rw [show (num.log2 : ℤ) - den.log2 + 1 = 54 + unit by omega, zpow_add₀ two_ne_zero] at high
  simp only [unitExponent, hunit]
  generalize (inUnits num den unit).1 = n at scaled
  generalize (inUnits num den unit).2 = d at dpos scaled
  rw [eq_div_iff upos.ne'] at scaled
  have dpos' : (0 : ℚ) < d := by exact_mod_cast dpos
  split
  next hlt =>
    have lt : (n : ℚ) / d < 2 ^ 53 := by
      rw [div_lt_iff₀ dpos']
      exact_mod_cast (Nat.div_lt_iff_lt_mul dpos).mp hlt
    refine ⟨unit, rfl, low.le, ?_⟩
    rw [← scaled]
    exact mul_lt_mul_of_pos_right lt upos
  next hge =>
    have ge : (2 : ℚ) ^ 53 ≤ n / d := by
      rw [le_div_iff₀ dpos']
      exact_mod_cast (Nat.le_div_iff_mul_le dpos).mp (not_lt.mp hge)
    refine ⟨unit + 1, rfl, ?_, ?_⟩
    · rw [zpow_add_one₀ two_ne_zero, ← scaled]
      nlinarith
    · rw [zpow_add_one₀ two_ne_zero]
      refine high.trans_eq ?_
      norm_num
      ring

theorem unitExponent_eq (hn : 0 < num) (hd : 0 < den) (h : Digits m e)
    (hq : (num : ℚ) / den = m * 2 ^ e) : unitExponent num den = e := by
  obtain ⟨unit, hunit, low, high⟩ := exists_unit hn hd
  rw [hunit]
  have below : (num : ℚ) / den < 2 ^ 53 * 2 ^ e := by
    rw [hq]
    exact mul_lt_mul_of_pos_right (by exact_mod_cast h.lt) (by positivity)
  have le := unit_unique low below
  rcases h.filled with full | smallest
  · have ge : e ≤ unit := unit_unique (by rw [hq]; gcongr; exact_mod_cast full) high
    have := h.min_le
    omega
  · omega

theorem roundQuotient_mul (m : Nat) {den : Nat} (hd : 0 < den) :
    roundQuotient (m * den) den = m := by
  have lt : compare 0 den = .lt := Nat.compare_eq_lt.mpr hd
  simp only [roundQuotient, Nat.mul_div_cancel m hd, Nat.mul_mod_left, Nat.mul_zero, lt]

theorem ofQuotient_eq (hd : 0 < den) (hx : x.toModel.unpack = .finite .positive m e hm)
    (hq : (num : ℚ) / den = m * 2 ^ e) : ofQuotient num den = x := by
  have digits := digits_of_unpack hx
  have mpos : (0 : ℚ) < m := by exact_mod_cast hm
  have hn : 0 < num := by
    refine Nat.pos_of_ne_zero ?_
    rintro rfl
    have pos : (0 : ℚ) < m * 2 ^ e := by positivity
    simp [← hq] at pos
  obtain ⟨dpos, scaled⟩ := inUnits_spec num hd e
  rw [hq, mul_div_cancel_right₀ _ (by positivity)] at scaled
  have whole : (inUnits num den e).1 = m * (inUnits num den e).2 := by
    rw [div_eq_iff (by exact_mod_cast dpos.ne')] at scaled
    exact_mod_cast scaled
  have bits := toNat_toBits_finite hx
  have unit := unitExponent_eq hn hd digits hq
  obtain ⟨lt, ge, le, -⟩ := digits
  simp only [minExponent] at ge
  rw [show (Sign.positive).toBitVec.toNat = 0 from rfl, Nat.zero_mul, Nat.zero_add] at bits
  have small : x.toBits.toNat ≤ infinityBits := by
    rw [bits, infinityBits]
    omega
  have word : ((e - minExponent).toNat <<< 52) + m = x.toBits.toNat := by
    rw [bits, Nat.shiftLeft_eq, minExponent, sub_neg_eq_add]
  simp only [ofQuotient, unit, whole, roundQuotient_mul m dpos, word, min_eq_left small]
  rw [show x.toBits.toNat.toUInt64 = x.toBits from UInt64.ofNat_toNat, Float.ofBits_toBits]

end Argand.Binary64
