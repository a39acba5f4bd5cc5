import Argand.Proofs.MachineNumber
import Argand.Proofs.MachineRemainder

namespace Argand.Machine

open Float.Model (Format UnpackedFloat)

variable {x y : Float32} {u : UnpackedFloat} {q : ℚ}

/-! Numbers of single precision stand for rational numbers as those of double precision do. -/

/-- The rational number that a finite number of single precision stands for. -/
def singleToRat (x : Float32) : ℚ := value x.toModel.unpack

theorem canonical_single (x : Float32) : Canonical .binary32 x.toModel.unpack :=
  (canonical_unpack (by decide) _).1

theorem fits_single (x : Float32) : Fits .binary32 x.toModel.unpack :=
  (canonical_unpack (by decide) _).2

theorem unpack_single (hc : Canonical .binary32 u) (hf : Fits .binary32 u) :
    (Float32.ofModel (.pack u)).toModel.unpack = u :=
  @unpack_pack .binary32 (by decide) u hc hf

theorem single_ext (h : x.toModel.unpack = y.toModel.unpack) : x = y := by
  have same (z : Float32) : Float32.ofModel (.pack z.toModel.unpack) = z := z.ofBits_toBits
  rw [← same x, h, same]

theorem single_lt_iff (fx : x.isFinite = true) (fy : y.isFinite = true) :
    x < y ↔ singleToRat x < singleToRat y :=
  decide_eq_true_iff.trans (lt_iff (canonical_single x) (canonical_single y) fx fy)

theorem single_le_iff (fx : x.isFinite = true) (fy : y.isFinite = true) :
    x ≤ y ↔ singleToRat x ≤ singleToRat y :=
  decide_eq_true_iff.trans (le_iff (canonical_single x) (canonical_single y) fx fy)

theorem single_eq_of_singleToRat_eq (fx : x.isFinite = true) (fy : y.isFinite = true)
    (h : singleToRat x = singleToRat y) (hne : singleToRat x ≠ 0) : x = y :=
  single_ext ((eq_or_zero_of_value_eq (canonical_single x) (canonical_single y) fx fy
    h).resolve_right hne)

theorem representable_single (x : Float32) : Representable .binary32 (singleToRat x) :=
  representable_value (canonical_single x) (by decide)

/-- Numbers above those that fill the digits at a smaller unit are multiples of the unit. -/
theorem Representable.eq_multiple {spec : Format} {s : ℤ} (h : Representable spec q)
    (large : 2 ^ spec.mantissaBits * 2 ^ (s - 1) < q) : ∃ j : ℤ, q = j * 2 ^ s := by
  obtain ⟨k, e, hk, -, rfl⟩ := h
  have unit : s ≤ e := by
    by_contra below
    have digits : (k : ℚ) ≤ 2 ^ spec.mantissaBits := by exact_mod_cast (le_abs_self k).trans hk
    have power : (2 : ℚ) ^ e ≤ 2 ^ (s - 1) := zpow_le_zpow_right₀ one_le_two (by omega)
    have product : (k : ℚ) * 2 ^ e ≤ 2 ^ spec.mantissaBits * 2 ^ (s - 1) := by gcongr
    exact absurd large (not_lt.mpr product)
  refine ⟨k * 2 ^ (e - s).toNat, ?_⟩
  rw [two_zpow_split (a := s) (b := e) (e - s).toNat (by omega)]
  push_cast
  ring

theorem singleToRat_of_unpack {m : Nat} {e : Int} {h : 0 < m}
    (hx : x.toModel.unpack = .finite .positive m e h) : singleToRat x = m * 2 ^ e := by
  rw [singleToRat, hx, value_positive]

theorem unpack_single_abs (x : Float32) : x.abs.toModel.unpack = x.toModel.unpack.abs :=
  unpack_single (canonical_single x).abs (fits_single x).abs

theorem singleToRat_abs (x : Float32) : singleToRat x.abs = |singleToRat x| := by
  rw [singleToRat, unpack_single_abs, value_abs, singleToRat]

theorem isFinite_single_abs (fx : x.isFinite = true) : x.abs.isFinite = true := by
  change x.abs.toModel.unpack.isFinite = true
  rw [unpack_single_abs, isFinite_unpacked_abs]
  exact fx

theorem abs_singleToRat_le (x : Float32) : |singleToRat x| ≤ 2 ^ 128 - 2 ^ 104 := by
  refine (abs_value_le (canonical_single x) (fits_single x)).trans_eq ?_
  change ((2 : ℚ) ^ 24 - 1) * 2 ^ (104 : ℤ) = _
  norm_num

theorem unpack_single_of_lt (hc : Canonical .binary32 u) (h : |value u| < 2 ^ 128) :
    (Float32.ofModel (.pack u)).toModel.unpack = u :=
  unpack_single hc (fits_of_value_lt (by decide) hc (h.trans_eq (zpow_natCast 2 128).symm))

/-- A sum does not overflow if one summand is below half a unit of the largest numbers, for the
other one is a number of the format near to it. -/
theorem rounds_single_add (fx : x.isFinite = true) (fy : y.isFinite = true)
    (small : |singleToRat x| < 2 ^ 103) :
    Rounds .binary32 (singleToRat x + singleToRat y) (x + y).toModel.unpack := by
  have rounds : Rounds .binary32 (singleToRat x + singleToRat y)
      (UnpackedFloat.add .binary32 x.toModel.unpack y.toModel.unpack) :=
    rounds_add (canonical_single x) (canonical_single y) fx fy
  have near : 2 * |singleToRat y - (singleToRat x + singleToRat y)| <
      2 ^ maxExponent .binary32 := by
    have unit : (2 : ℚ) ^ maxExponent .binary32 = 2 * 2 ^ 103 := by
      change (2 : ℚ) ^ (104 : ℤ) = _
      norm_num
    rw [sub_add_cancel_right, abs_neg, unit]
    linarith
  have fits := rounds.fits_of_near (by decide) (by decide) (canonical_single y) (fits_single y) near
  have stored : (x + y).toModel.unpack =
      UnpackedFloat.add .binary32 x.toModel.unpack y.toModel.unpack :=
    unpack_single rounds.canonical fits
  rwa [stored]

/-- The remainder of numbers of single precision is not rounded. -/
theorem isRemainder_single (fx : x.isFinite = true) (fy : y.isFinite = true)
    (hne : singleToRat y ≠ 0) : (Scalar.rem x y).isFinite = true ∧
      IsRemainder (singleToRat x) (singleToRat y) (singleToRat (Scalar.rem x y)) := by
  have order := single_lt_iff (isFinite_single_abs fx) (isFinite_single_abs fy)
  rw [singleToRat_abs, singleToRat_abs] at order
  by_cases short : x.abs < y.abs
  · have whole : Scalar.rem x y = x := if_pos short
    rw [whole]
    exact ⟨fx, IsRemainder.self (order.mp short)⟩
  · have cut : Scalar.rem x y =
        .ofModel (.pack (remainder .binary32 x.toModel.unpack y.toModel.unpack)) := if_neg short
    have le : |singleToRat y| ≤ |singleToRat x| := not_lt.mp (mt order.mpr short)
    have remains := isRemainder_remainder (canonical_single x) (canonical_single y) fx fy hne le
    obtain ⟨canonical, finite⟩ : Canonical .binary32 _ ∧ _ := canonical_remainder fx fy hne
    have bounded : |value (remainder .binary32 x.toModel.unpack y.toModel.unpack)| < 2 ^ 128 := by
      have large := abs_singleToRat_le y
      have unit : (0 : ℚ) < 2 ^ 104 := by positivity
      have small : |value (remainder .binary32 x.toModel.unpack y.toModel.unpack)| <
        |singleToRat y| := remains.small
      linarith
    have stored : (Scalar.rem x y).toModel.unpack =
        remainder .binary32 x.toModel.unpack y.toModel.unpack := by
      rw [cut]
      exact unpack_single_of_lt canonical bounded
    constructor
    · change (Scalar.rem x y).toModel.unpack.isFinite = true
      rw [stored, finite]
    · rwa [singleToRat, singleToRat, singleToRat, stored]

end Argand.Machine
