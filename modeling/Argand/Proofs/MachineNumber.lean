import Argand.Proofs.MachineArithmetic
import Argand.Scalar.Machine

namespace Argand.Machine

open Float.Model (Format UnpackedFloat)
open Float.Model.UnpackedFloat (Sign)

variable {x y : Float} {u : UnpackedFloat} {q a b : ℚ}

/-- The rational number that a finite machine number stands for. -/
def toRat (x : Float) : ℚ := value x.toModel.unpack

theorem toRat_of_unpack {m : Nat} {e : Int} {h : 0 < m}
    (hx : x.toModel.unpack = .finite .positive m e h) : toRat x = m * 2 ^ e := by
  rw [toRat, hx, value_positive]

theorem canonical_float (x : Float) : Canonical .binary64 x.toModel.unpack :=
  (canonical_unpack (by decide) _).1

theorem fits_float (x : Float) : Fits .binary64 x.toModel.unpack :=
  (canonical_unpack (by decide) _).2

@[simp] theorem ofModel_pack_unpack (x : Float) : Float.ofModel (.pack x.toModel.unpack) = x :=
  x.ofBits_toBits

theorem unpack_ofModel_pack (hc : Canonical .binary64 u) (hf : Fits .binary64 u) :
    (Float.ofModel (.pack u)).toModel.unpack = u :=
  @unpack_pack .binary64 (by decide) u hc hf

theorem float_ext (h : x.toModel.unpack = y.toModel.unpack) : x = y := by
  rw [← ofModel_pack_unpack x, h, ofModel_pack_unpack]

theorem float_lt_iff (fx : x.isFinite = true) (fy : y.isFinite = true) :
    x < y ↔ toRat x < toRat y :=
  decide_eq_true_iff.trans (lt_iff (canonical_float x) (canonical_float y) fx fy)

theorem float_le_iff (fx : x.isFinite = true) (fy : y.isFinite = true) :
    x ≤ y ↔ toRat x ≤ toRat y :=
  decide_eq_true_iff.trans (le_iff (canonical_float x) (canonical_float y) fx fy)

/-- The power of two above all finite machine numbers. -/
def overflow : ℚ := 2 ^ (1024 : ℤ)

/-- Numbers of the format that are not too large for it. -/
def Storable (q : ℚ) : Prop := Representable .binary64 q ∧ |q| < overflow

theorem Storable.neg (h : Storable q) : Storable (-q) :=
  ⟨h.1.neg, by rw [abs_neg]; exact h.2⟩

theorem storable_natCast {n : Nat} (h : n < 2 ^ 53) : Storable n := by
  refine ⟨⟨n, 0, ?_, by decide, by simp⟩, ?_⟩
  · rw [Nat.abs_cast]
    exact_mod_cast h.le
  · rw [Nat.abs_cast, overflow, two_zpow_split (a := 971) 53 (by norm_num)]
    have above : (1 : ℚ) ≤ 2 ^ (971 : ℤ) := one_le_zpow₀ one_le_two (by norm_num)
    calc (n : ℚ) < 2 ^ 53 := by exact_mod_cast h
      _ ≤ 2 ^ 53 * 2 ^ (971 : ℤ) := le_mul_of_one_le_right (by positivity) above

/-- A finite number between two bounds. -/
structure Within (a b : ℚ) (x : Float) : Prop where
  finite : x.isFinite = true
  ge : a ≤ toRat x
  le : toRat x ≤ b

theorem Within.mono {c d : ℚ} (h : Within a b x) (hc : c ≤ a) (hd : b ≤ d) : Within c d x :=
  ⟨h.finite, hc.trans h.ge, h.le.trans hd⟩

theorem unpack_of_rounds (h : Rounds .binary64 q u) (ha : Storable a) (hb : Storable b)
    (hqa : a ≤ q) (hqb : q ≤ b) : (Float.ofModel (.pack u)).toModel.unpack = u := by
  have lower := h.ge_of_ge ha.1 hqa
  have upper := h.le_of_le hb.1 hqb
  have below := abs_lt.mp ha.2
  have above := abs_lt.mp hb.2
  have small : |value u| < overflow := abs_lt.mpr ⟨by linarith, by linarith⟩
  have fits : Fits .binary64 u := fits_of_value_lt (by decide) h.canonical small
  exact unpack_ofModel_pack h.canonical fits

/-- Rounding stays within bounds of the format, so that it does not overflow. -/
theorem within_of_rounds (h : Rounds .binary64 q u) (ha : Storable a) (hb : Storable b)
    (hqa : a ≤ q) (hqb : q ≤ b) : Within a b (.ofModel (.pack u)) := by
  have lower := h.ge_of_ge ha.1 hqa
  have upper := h.le_of_le hb.1 hqb
  have same := unpack_of_rounds h ha hb hqa hqb
  refine ⟨?_, ?_, ?_⟩
  · change (Float.ofModel (.pack u)).toModel.unpack.isFinite = true
    rw [same, h.finite]
  · rwa [toRat, same]
  · rwa [toRat, same]

theorem Within.add {c d : ℚ} (hx : Within a b x) (hy : Within c d y) (hl : Storable (a + c))
    (hu : Storable (b + d)) : Within (a + c) (b + d) (x + y) :=
  within_of_rounds (rounds_add (canonical_float x) (canonical_float y) hx.finite hy.finite) hl hu
    (add_le_add hx.ge hy.ge) (add_le_add hx.le hy.le)

theorem Within.sub {c d : ℚ} (hx : Within a b x) (hy : Within c d y) (hl : Storable (a - d))
    (hu : Storable (b - c)) : Within (a - d) (b - c) (x - y) :=
  within_of_rounds (rounds_sub (canonical_float x) (canonical_float y) hx.finite hy.finite) hl hu
    (sub_le_sub hx.ge hy.le) (sub_le_sub hx.le hy.ge)

theorem within_div (fx : x.isFinite = true) (fy : y.isFinite = true) (hy : 0 < toRat y)
    (ha : Storable a) (hb : Storable b) (hl : a * toRat y ≤ toRat x) (hu : toRat x ≤ b * toRat y) :
    Within a b (x / y) :=
  within_of_rounds (rounds_div (canonical_float x) (canonical_float y) fx fy hy.ne') ha hb
    ((le_div_iff₀ hy).mpr hl) ((div_le_iff₀ hy).mpr hu)

theorem Within.timesOne (h : Within a b x) (ha : Storable a) (hb : Storable b) :
    Within a b (x * 1.0) := by
  have one : toRat 1.0 = 1 := by
    rw [@toRat_of_unpack 1.0 (2 ^ 52) (-52) (by decide) rfl]
    norm_num
  have rounds : Rounds .binary64 _ _ :=
    rounds_mul (by decide) (canonical_float x) (canonical_float 1.0) h.finite rfl
  rw [← toRat, ← toRat, one, mul_one] at rounds
  exact within_of_rounds rounds ha hb h.ge h.le

theorem unpack_neg (x : Float) : (-x).toModel.unpack = x.toModel.unpack.neg :=
  unpack_ofModel_pack (canonical_float x).neg (fits_float x).neg

theorem unpack_abs (x : Float) : x.abs.toModel.unpack = x.toModel.unpack.abs :=
  unpack_ofModel_pack (canonical_float x).abs (fits_float x).abs

theorem toRat_neg (x : Float) : toRat (-x) = -toRat x := by
  rw [toRat, unpack_neg, value_neg, toRat]

theorem Within.neg (h : Within a b x) : Within (-b) (-a) (-x) := by
  refine ⟨?_, by rw [toRat_neg]; exact neg_le_neg h.le, by rw [toRat_neg]; exact neg_le_neg h.ge⟩
  change (-x).toModel.unpack.isFinite = true
  rw [unpack_neg, isFinite_unpacked_neg]
  exact h.finite

theorem isFinite_abs (fx : x.isFinite = true) : x.abs.isFinite = true := by
  change x.abs.toModel.unpack.isFinite = true
  rw [unpack_abs, isFinite_unpacked_abs]
  exact fx

theorem toRat_abs (x : Float) : toRat x.abs = |toRat x| := by
  rw [toRat, unpack_abs, value_abs, toRat]

/-! Integers of 53 digits are converted as they are. -/

theorem within_toFloat {n : Nat} (h : n < 2 ^ 53) : Within n n n.toUInt64.toFloat := by
  have word : n.toUInt64.toNat = n := Nat.mod_eq_of_lt (h.trans (by decide))
  have storable := storable_natCast h
  have rounds : Rounds .binary64 n (UnpackedFloat.ofUInt64 .binary64 n.toUInt64) := by
    have normal : Rounds .binary64 _ _ := rounds_normalize n 0 .positive
    rw [zpow_zero, mul_one] at normal
    simpa [UnpackedFloat.ofUInt64, UnpackedFloat.ofNat, UnpackedFloat.ofInt, word] using normal
  exact within_of_rounds rounds storable storable le_rfl le_rfl

theorem within_ofNat {n : Nat} (h : n < 2 ^ 53) : Within n n (Float.ofNat n) := by
  have storable := storable_natCast h
  have long : Float.ofNat n = n.toUInt64.toFloat * 1.0 := by
    have small : n < 2 ^ 53 ∧ 0 ≤ 22 := ⟨h, by decide⟩
    change Float.ofScientific n false 0 = _
    rw [Float.ofScientific, dif_pos small]
    rfl
  rw [long]
  exact (within_toFloat h).timesOne storable storable

theorem within_floatOfNat {n : Nat} (h : n < 2 ^ 53) : Within n n (floatOfNat n) := by
  unfold floatOfNat
  split
  next => exact within_toFloat h
  next => exact within_ofNat h

theorem within_ofInt {i : Int} (h : i.natAbs < 2 ^ 53) : Within i i (Float.ofInt i) := by
  cases i with
  | ofNat n => exact_mod_cast within_ofNat h
  | negSucc n => exact_mod_cast (within_ofNat (n := n + 1) h).neg

theorem storable_intCast {i : Int} (h : i.natAbs < 2 ^ 53) : Storable i := by
  cases i with
  | ofNat n => exact_mod_cast storable_natCast h
  | negSucc n => exact_mod_cast (storable_natCast (n := n + 1) h).neg

/-- Numbers with the same value are the same, zeros apart. -/
theorem float_eq_of_toRat_eq (fx : x.isFinite = true) (fy : y.isFinite = true)
    (h : toRat x = toRat y) (hne : toRat x ≠ 0) : x = y :=
  float_ext ((eq_or_zero_of_value_eq (canonical_float x) (canonical_float y) fx fy h).resolve_right
    hne)

theorem sub_self_of_finite (fu : u.isFinite = true) :
    UnpackedFloat.sub .binary64 u u = .zero .positive := by
  match u, fu with
  | .zero s, _ => cases s <;> rfl
  | .finite s m e h, _ =>
    simp only [UnpackedFloat.sub, Int.sub_self, UnpackedFloat.normalize]
    rfl

theorem float_sub_self (fx : x.isFinite = true) : x - x = 0 := by
  change Float.ofModel (.pack (UnpackedFloat.sub .binary64 x.toModel.unpack x.toModel.unpack)) = 0
  rw [sub_self_of_finite fx]
  rfl

/-- A natural number is the same machine number by either way of conversion. -/
theorem floatOfNat_eq_ofNat {n : Nat} (h : n < 2 ^ 53) : floatOfNat n = Float.ofNat n := by
  rcases Nat.eq_zero_or_pos n with rfl | pos
  · rfl
  · have short := within_floatOfNat h
    have long := within_ofNat h
    have value : toRat (floatOfNat n) = n := le_antisymm short.le short.ge
    have positive : (n : ℚ) ≠ 0 := by exact_mod_cast pos.ne'
    exact float_eq_of_toRat_eq short.finite long.finite
      (value.trans (le_antisymm long.ge long.le)) (by rwa [value])

/-- The difference of two integers is not rounded, and that of two equal ones is positive zero. -/
theorem floatOfNat_sub {a b : Nat} (ha : a < 2 ^ 53) (hb : b < 2 ^ 53) :
    floatOfNat a - floatOfNat b = Float.ofInt (a - b) := by
  have left := within_floatOfNat ha
  by_cases eq : a = b
  · subst eq
    rw [float_sub_self left.finite, Int.sub_self]
    rfl
  · have small : ((a : Int) - b).natAbs < 2 ^ 53 := by omega
    have storable : Storable ((a : ℚ) - b) := by exact_mod_cast storable_intCast small
    have difference := left.sub (within_floatOfNat hb) storable storable
    have integer := within_ofInt small
    push_cast at integer
    have value : toRat (floatOfNat a - floatOfNat b) = a - b :=
      le_antisymm difference.le difference.ge
    have ne : (a : ℚ) - b ≠ 0 := sub_ne_zero.mpr (by exact_mod_cast eq)
    exact float_eq_of_toRat_eq difference.finite integer.finite
      (value.trans (le_antisymm integer.ge integer.le)) (by rwa [value])

theorem isNaN_of_isFinite (h : u.isFinite = true) : u.isNaN = false := by
  cases u <;> first | rfl | exact absurd h (by decide)

theorem Within.not_nan (h : Within a b x) : x.isNaN = false :=
  isNaN_of_isFinite (u := x.toModel.unpack) h.finite

theorem Within.of_le {low high : Float} (fl : low.isFinite = true) (fh : high.isFinite = true)
    (h : low ≤ x) (h' : x ≤ high) : Within (toRat low) (toRat high) x := by
  have fx : x.isFinite = true :=
    isFinite_of_le fl fh (decide_eq_true_iff.mp h) (decide_eq_true_iff.mp h')
  exact ⟨fx, (float_le_iff fl fx).mp h, (float_le_iff fx fh).mp h'⟩

theorem float_le_of_not_lt (hx : x.isNaN = false) (hy : y.isNaN = false) (h : ¬ x < y) : y ≤ x :=
  decide_eq_true_iff.mpr (le_of_not_lt hx hy
    (Bool.eq_false_iff.mpr fun hlt => h (decide_eq_true_iff.mpr hlt)))

theorem isFinite_of_abs_le {x high : Float} (fh : high.isFinite = true) (h : x.abs ≤ high) :
    x.isFinite = true := by
  have le : x.abs.toModel.unpack.le high.toModel.unpack = true := decide_eq_true_iff.mp h
  rw [unpack_abs] at le
  change x.toModel.unpack.isFinite = true
  cases hx : x.toModel.unpack with
  | infinity s =>
    rw [hx] at le
    exact absurd le (Bool.eq_false_iff.mp (not_positive_infinity_le fh))
  | notANumber =>
    rw [hx] at le
    exact absurd le (by simp [UnpackedFloat.abs, UnpackedFloat.le, UnpackedFloat.compare])
  | _ => rfl

theorem isNaN_of_beq_self (h : (x == x) = true) : x.isNaN = false := by
  rw [Float.isNaN_eq_decide_eq_nan]
  exact decide_eq_false (Float.beq_self_iff.mp h)

theorem representable_float (x : Float) : Representable .binary64 (toRat x) :=
  representable_value (canonical_float x) (by decide)

theorem float_beq_iff (fx : x.isFinite = true) (fy : y.isFinite = true) :
    (x == y) = true ↔ toRat x = toRat y := by
  change x.toModel.unpack.beq y.toModel.unpack = true ↔ _
  rw [UnpackedFloat.beq, compare_eq (canonical_float x) (canonical_float y) fx fy, beq_iff_eq,
    Option.some_inj, compare_eq_iff_eq]
  rfl

/-- The difference from a number of moderate size does not overflow. -/
theorem rounds_float_sub (fx : x.isFinite = true) (fy : y.isFinite = true)
    (small : |toRat x| < 2 ^ (970 : ℤ)) :
    Rounds .binary64 (toRat x - toRat y) (x - y).toModel.unpack := by
  have rounds : Rounds .binary64 (toRat x - toRat y)
      (UnpackedFloat.sub .binary64 x.toModel.unpack y.toModel.unpack) :=
    rounds_sub (canonical_float x) (canonical_float y) fx fy
  have near : 2 * |value y.toModel.unpack.neg - (toRat x - toRat y)| <
      2 ^ maxExponent .binary64 := by
    have unit : (2 : ℚ) ^ maxExponent .binary64 = 2 * 2 ^ (970 : ℤ) := by
      rw [← zpow_one_add₀ two_ne_zero]
      rfl
    have distance : value y.toModel.unpack.neg - (toRat x - toRat y) = -toRat x := by
      rw [value_neg, toRat, toRat]
      ring
    rw [distance, abs_neg, unit]
    linarith
  have fits := rounds.fits_of_near (by decide) (by decide) (canonical_float y).neg
    (fits_float y).neg near
  have stored : (x - y).toModel.unpack =
      UnpackedFloat.sub .binary64 x.toModel.unpack y.toModel.unpack :=
    unpack_ofModel_pack rounds.canonical fits
  rwa [stored]

end Argand.Machine
