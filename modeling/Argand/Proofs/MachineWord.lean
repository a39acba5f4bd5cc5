import Mathlib

namespace Argand.Machine

open Float.Model (Format UnpackedFloat)
open Float.Model.UnpackedFloat (Sign packComponents packedInfinity unpackExponent
  unpackMantissa unpackSign_packComponents unpackExponent_packComponents
  unpackMantissa_packComponents)

variable {spec : Format}

/-- The significand fills the digits of the format, or the unit is the smallest one. -/
def Canonical (spec : Format) : UnpackedFloat → Prop
  | .finite _ m e _ => m < 2 ^ spec.mantissaBits ∧ spec.minExponent ≤ e ∧
      (2 ^ spec.mantissaBitsWithoutImplicit ≤ m ∨ e = spec.minExponent)
  | _ => True

def maxExponent (spec : Format) : Int := 2 ^ (spec.exponentBits - 1) - spec.mantissaBits

def Fits (spec : Format) : UnpackedFloat → Prop
  | .finite _ _ e _ => e ≤ maxExponent spec
  | _ => True

/-- The exponents of a format, by the half of the number of stored ones. -/
theorem exponents_eq (h : 1 < spec.exponentBits) : ∃ k : Nat, 2 ≤ k ∧
    2 ^ spec.exponentBits = 2 * k ∧ spec.exponentBias = k - 1 ∧
    spec.minExponent = 2 - k - spec.mantissaBitsWithoutImplicit ∧
    maxExponent spec = k - 1 - spec.mantissaBitsWithoutImplicit := by
  obtain ⟨j, hj⟩ : ∃ j, spec.exponentBits = j + 2 := ⟨spec.exponentBits - 2, by omega⟩
  have pos := Nat.two_pow_pos j
  refine ⟨2 ^ (j + 1), by omega, by rw [hj]; ring, by simp [Format.exponentBias, hj], ?_, ?_⟩
  · simp [Format.minExponent, Format.mantissaBits, hj]
    omega
  · simp [maxExponent, Format.mantissaBits, hj]
    omega

theorem toNat_packComponents (s : Sign) (e : BitVec spec.exponentBits)
    (m : BitVec spec.mantissaBitsWithoutImplicit) :
    (packComponents spec s e m).toNat =
      (s.toBitVec.toNat * 2 ^ spec.exponentBits + e.toNat) * 2 ^ spec.mantissaBitsWithoutImplicit +
        m.toNat := by
  simp only [packComponents, BitVec.toNat_append]
  rw [← Nat.shiftLeft_add_eq_or_of_lt e.isLt, ← Nat.shiftLeft_add_eq_or_of_lt m.isLt,
    Nat.shiftLeft_eq, Nat.shiftLeft_eq]

/-- The significand of a normal number has a leading bit in front of the stored ones. -/
theorem toNat_one_append {w : Nat} (m : BitVec w) : (1#1 ++ m).toNat = 2 ^ w + m.toNat := by
  rw [BitVec.toNat_append, ← Nat.shiftLeft_add_eq_or_of_lt m.isLt]
  simp [Nat.shiftLeft_eq]

/-- What is read from a word is canonical and can be stored again. -/
theorem canonical_unpack (h : 1 < spec.exponentBits) (b : BitVec spec.numBits) :
    Canonical spec (UnpackedFloat.unpack spec b) ∧ Fits spec (UnpackedFloat.unpack spec b) := by
  obtain ⟨k, hk, hpow, hbias, hmin, hmax⟩ := exponents_eq h
  have hm := (unpackMantissa b).isLt
  have he := (unpackExponent b).isLt
  unfold UnpackedFloat.unpack
  simp only
  split
  next => split <;> trivial
  next hne =>
    split
    next hz =>
      split
      next => trivial
      next =>
        simp only [Canonical, Fits, hz, hbias, hmin, hmax, Format.mantissaBits, BitVec.toNat_zero,
          Nat.pow_add]
        omega
    next hnz =>
      have pos : (unpackExponent b).toNat ≠ 0 := by
        simpa [← BitVec.toNat_inj] using hnz
      have lt : (unpackExponent b).toNat ≠ 2 ^ spec.exponentBits - 1 := by
        simpa [← BitVec.toNat_inj, BitVec.neg_one_eq_allOnes] using hne
      simp only [Canonical, Fits, hbias, hmin, hmax, Format.mantissaBits, toNat_one_append,
        Nat.pow_add]
      omega

theorem lt_of_log2_ne {m w : Nat} (hm : 0 < m) (hw : m.log2 ≠ w) (h : m < 2 * 2 ^ w) :
    m < 2 ^ w := by
  by_contra hge
  exact hw ((Nat.log2_eq_iff hm.ne').mpr ⟨by omega, by omega⟩)

/-- The exponent and the significand of a canonical number follow each other in its word. -/
theorem toNat_pack_finite (h : 1 < spec.exponentBits) {s : Sign} {m : Nat} {e : Int} {hm : 0 < m}
    (hc : Canonical spec (.finite s m e hm)) (hf : Fits spec (.finite s m e hm)) :
    (UnpackedFloat.pack spec (.finite s m e hm)).toNat =
      s.toBitVec.toNat * 2 ^ spec.exponentBits * 2 ^ spec.mantissaBitsWithoutImplicit +
        (e - spec.minExponent).toNat * 2 ^ spec.mantissaBitsWithoutImplicit + m := by
  obtain ⟨k, hk, hpow, hbias, hmin, hmax⟩ := exponents_eq h
  simp only [Canonical, Fits, hmin, hmax, Format.mantissaBits, Nat.pow_add, pow_one] at hc hf
  simp only [UnpackedFloat.pack, hbias, hpow, Format.mantissaBits]
  rw [if_neg (by omega)]
  split
  next hlog =>
    obtain ⟨lo, hi⟩ := (Nat.log2_eq_iff hm.ne').mp
      (show m.log2 = spec.mantissaBitsWithoutImplicit by omega)
    obtain ⟨j, hj⟩ : ∃ j, (e - spec.minExponent).toNat = j := ⟨_, rfl⟩
    have field : (e + (k - 1 : Nat) + spec.mantissaBitsWithoutImplicit).toNat = j + 1 := by
      omega
    rw [toNat_packComponents, BitVec.toNat_ofNat, BitVec.toNat_ofNat, field, hj,
      Nat.mod_eq_of_lt (by omega), Nat.mod_eq_sub_mod lo, Nat.mod_eq_of_lt (by omega), hpow,
      Nat.add_mul, Nat.add_mul]
    omega
  next hlog =>
    have lt : m < 2 ^ spec.mantissaBitsWithoutImplicit := lt_of_log2_ne hm (by omega) hc.1
    have unit : (e - spec.minExponent).toNat = 0 := by
      omega
    rw [toNat_packComponents, BitVec.toNat_ofNat, BitVec.toNat_ofNat, unit, Nat.mod_eq_of_lt lt,
      Nat.zero_mod, Nat.add_zero, Nat.zero_mul, Nat.add_zero, hpow]

theorem unpack_pack_finite (h : 1 < spec.exponentBits) {s : Sign} {m : Nat} {e : Int} {hm : 0 < m}
    (hc : Canonical spec (.finite s m e hm)) (hf : Fits spec (.finite s m e hm)) :
    UnpackedFloat.unpack spec (UnpackedFloat.pack spec (.finite s m e hm)) = .finite s m e hm := by
  obtain ⟨k, hk, hpow, hbias, hmin, hmax⟩ := exponents_eq h
  have ones : (-BitVec.ofNat spec.exponentBits 1).toNat = 2 ^ spec.exponentBits - 1 := by
    rw [BitVec.neg_one_eq_allOnes, BitVec.toNat_allOnes]
  have zero_ne : BitVec.ofNat spec.exponentBits 0 ≠ -BitVec.ofNat spec.exponentBits 1 := by
    rw [ne_eq, ← BitVec.toNat_inj, ones, BitVec.toNat_zero]
    omega
  simp only [Canonical, Fits, hmin, hmax, Format.mantissaBits, Nat.pow_add, pow_one] at hc hf
  simp only [UnpackedFloat.pack, hbias, hpow, Format.mantissaBits]
  rw [if_neg (by omega)]
  split
  next hlog =>
    obtain ⟨lo, hi⟩ := (Nat.log2_eq_iff hm.ne').mp
      (show m.log2 = spec.mantissaBitsWithoutImplicit by omega)
    have biased : (BitVec.ofNat spec.exponentBits
        (e + (k - 1 : Nat) + spec.mantissaBitsWithoutImplicit).toNat).toNat =
          (e + (k - 1 : Nat) + spec.mantissaBitsWithoutImplicit).toNat := by
      rw [BitVec.toNat_ofNat, Nat.mod_eq_of_lt (by omega)]
    have stored : (BitVec.ofNat spec.mantissaBitsWithoutImplicit m).toNat =
        m - 2 ^ spec.mantissaBitsWithoutImplicit := by
      rw [BitVec.toNat_ofNat, Nat.mod_eq_sub_mod lo, Nat.mod_eq_of_lt (by omega)]
    simp only [UnpackedFloat.unpack, unpackExponent_packComponents,
      unpackMantissa_packComponents, unpackSign_packComponents, Sign.ofBitVec_toBitVec]
    rw [if_neg, if_neg]
    · simp only [toNat_one_append, biased, stored, UnpackedFloat.finite.injEq, hbias, true_and]
      omega
    · rw [← BitVec.toNat_inj, biased, BitVec.toNat_zero]
      omega
    · rw [← BitVec.toNat_inj, biased, ones]
      omega
  next hlog =>
    have lt : m < 2 ^ spec.mantissaBitsWithoutImplicit := lt_of_log2_ne hm (by omega) hc.1
    have stored : (BitVec.ofNat spec.mantissaBitsWithoutImplicit m).toNat = m := by
      rw [BitVec.toNat_ofNat, Nat.mod_eq_of_lt lt]
    have ne : BitVec.ofNat spec.mantissaBitsWithoutImplicit m ≠ 0#_ := by
      rw [ne_eq, ← BitVec.toNat_inj, stored, BitVec.toNat_zero]
      omega
    simp only [UnpackedFloat.unpack, unpackExponent_packComponents,
      unpackMantissa_packComponents, unpackSign_packComponents, Sign.ofBitVec_toBitVec,
      if_neg zero_ne, dif_neg ne, if_true, stored, BitVec.toNat_zero, UnpackedFloat.finite.injEq,
      hbias, true_and]
    omega

theorem unpack_packedInfinity (s : Sign) :
    UnpackedFloat.unpack spec (packedInfinity spec s) = .infinity s := by
  simp [UnpackedFloat.unpack, packedInfinity]

/-- A number beyond the range of the format is stored as an infinite one. -/
theorem unpack_pack_of_not_fits (h : 1 < spec.exponentBits) {s : Sign} {m : Nat} {e : Int}
    {hm : 0 < m} (hf : ¬ Fits spec (.finite s m e hm)) :
    UnpackedFloat.unpack spec (UnpackedFloat.pack spec (.finite s m e hm)) = .infinity s := by
  obtain ⟨k, hk, hpow, hbias, hmin, hmax⟩ := exponents_eq h
  rw [Fits, hmax] at hf
  simp only [UnpackedFloat.pack, hbias, hpow]
  rw [if_pos (by omega), unpack_packedInfinity]

/-- A canonical number in the range of the format is read as it was stored. -/
theorem unpack_pack (h : 1 < spec.exponentBits) {u : UnpackedFloat} (hc : Canonical spec u)
    (hf : Fits spec u) : UnpackedFloat.unpack spec (UnpackedFloat.pack spec u) = u := by
  cases u with
  | infinity s => exact unpack_packedInfinity s
  | notANumber => exact UnpackedFloat.unpack_packedNaN
  | zero s => exact UnpackedFloat.unpack_packedZero
  | finite => exact unpack_pack_finite h hc hf

end Argand.Machine
