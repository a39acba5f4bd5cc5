import Argand.Proofs.MachineOrder

namespace Argand.Machine

open Float.Model (Format UnpackedFloat)

variable {spec : Format} {x y : Float32} {a b : Float} {u v : UnpackedFloat}

/-- What is read back of a number that has been stored. -/
def stored (spec : Format) (u : UnpackedFloat) : UnpackedFloat :=
  UnpackedFloat.unpack spec (UnpackedFloat.pack spec u)

/-- Only what is too large changes when it is stored. -/
theorem stored_cases (h : 1 < spec.exponentBits) (hc : Canonical spec u) :
    stored spec u = u ∨ ∃ s m e hm, u = .finite s m e hm ∧ maxExponent spec < e ∧
      stored spec u = .infinity s := by
  by_cases hf : Fits spec u
  · exact Or.inl (unpack_pack h hc hf)
  · cases u with
    | finite s m e hm =>
      exact Or.inr ⟨s, m, e, hm, rfl, not_le.mp hf, unpack_pack_of_not_fits h hf⟩
    | _ => exact absurd trivial hf

theorem isNaN_stored (h : 1 < spec.exponentBits) (hc : Canonical spec u) :
    (stored spec u).isNaN = u.isNaN := by
  rcases stored_cases h hc with same | ⟨s, m, e, hm, rfl, -, infinite⟩
  · rw [same]
  · rw [infinite]
    rfl

/-- On one side of zero the greater number has no smaller exponent. -/
theorem exponent_le_of_le {m m' : Nat} {e e' : Int} {hm : 0 < m} {hm' : 0 < m'}
    (hu : Canonical spec (.finite .positive m e hm))
    (hv : Canonical spec (.finite .positive m' e' hm'))
    (h : UnpackedFloat.le (.finite .positive m e hm) (.finite .positive m' e' hm') = true) :
    e ≤ e' := by
  have values := (le_iff hu hv rfl rfl).mp h
  rw [value_positive, value_positive] at values
  by_contra below
  exact absurd (magnitude_lt hv hu (by omega)) (not_lt.mpr values)

theorem stored_of_positive_le {m : Nat} {e : Int} {hm : 0 < m} (hspec : 1 < spec.exponentBits)
    (hu : Canonical spec (.finite .positive m e hm)) (hv : Canonical spec v)
    (he : maxExponent spec < e) (h : UnpackedFloat.le (.finite .positive m e hm) v = true) :
    stored spec v = .infinity .positive := by
  match v with
  | .infinity .positive => exact unpack_packedInfinity .positive
  | .finite .positive m' e' hm' =>
    have exponent := exponent_le_of_le hu hv h
    exact unpack_pack_of_not_fits hspec (not_le.mpr (he.trans_le exponent))
  | .infinity .negative | .zero _ | .notANumber | .finite .negative _ _ _ =>
    exact absurd h Bool.false_ne_true

theorem stored_of_le_negative {m : Nat} {e : Int} {hm : 0 < m} (hspec : 1 < spec.exponentBits)
    (hu : Canonical spec u) (hv : Canonical spec (.finite .negative m e hm))
    (he : maxExponent spec < e) (h : u.le (.finite .negative m e hm) = true) :
    stored spec u = .infinity .negative := by
  match u with
  | .infinity .negative => exact unpack_packedInfinity .negative
  | .finite .negative m' e' hm' =>
    have exponent := exponent_le_of_le hv hu (le_neg_neg h)
    exact unpack_pack_of_not_fits hspec (not_le.mpr (he.trans_le exponent))
  | .infinity .positive | .zero _ | .notANumber | .finite .positive _ _ _ =>
    exact absurd h Bool.false_ne_true

/-- Numbers that are stored keep their order. -/
theorem stored_mono (hspec : 1 < spec.exponentBits) (hu : Canonical spec u) (hv : Canonical spec v)
    (h : u.le v = true) : (stored spec u).le (stored spec v) = true := by
  obtain ⟨number, number'⟩ := isNaN_of_le h
  rcases stored_cases hspec hu with same | ⟨s, m, e, hm, rfl, he, infinite⟩
  · rcases stored_cases hspec hv with same' | ⟨s, m, e, hm, rfl, he, infinite⟩
    · rwa [same, same']
    · cases s with
      | positive =>
        rw [same, infinite]
        exact le_positive_infinity number
      | negative => rw [stored_of_le_negative hspec hu hv he h, infinite]; rfl
  · cases s with
    | positive => rw [infinite, stored_of_positive_le hspec hu hv he h]; rfl
    | negative =>
      rw [infinite]
      exact negative_infinity_le (by rwa [isNaN_stored hspec hv])

theorem single_lt_of_not_le (fx : x.isFinite = true) (fy : y.isFinite = true) (h : ¬ x ≤ y) :
    y < x :=
  decide_eq_true_iff.mpr (lt_of_not_le (isNaN_of_isFinite fx) (isNaN_of_isFinite fy)
    (Bool.eq_false_iff.mpr fun hle => h (decide_eq_true_iff.mpr hle)))

theorem single_not_lt_of_le (h : x ≤ y) : ¬ y < x := fun contrary =>
  Bool.eq_false_iff.mp (not_lt_of_le (decide_eq_true_iff.mp h)) (decide_eq_true_iff.mp contrary)

theorem single_isNaN_of_lt (h : x < y) : x.isNaN = false ∧ y.isNaN = false :=
  isNaN_of_le (le_of_lt (decide_eq_true_iff.mp h))

/-- The nearest number of single precision. -/
def toSingle (x : Float) : Float32 :=
  .ofModel (.pack (match x.toModel.unpack with
    | .finite s m e _ => .round .binary32 s m e
    | u => u))

/-- The nearest number with the digits of single precision, however large. -/
def rounded (u : UnpackedFloat) : UnpackedFloat :=
  match u with
  | .finite s m e _ => .round .binary32 s m e
  | u => u

theorem unpack_toSingle (x : Float) :
    (toSingle x).toModel.unpack = stored .binary32 (rounded x.toModel.unpack) := rfl

theorem rounds_rounded (fu : u.isFinite = true) : Rounds .binary32 (value u) (rounded u) := by
  match u, fu with
  | .zero s, _ => exact rounds_zero s
  | .finite s m e hm, _ =>
    rw [value_finite]
    exact rounds_round s hm e

theorem canonical_rounded (u : UnpackedFloat) : Canonical .binary32 (rounded u) := by
  match u with
  | .finite s m e hm => exact (rounds_round s hm e).canonical
  | .zero _ | .infinity _ | .notANumber => trivial

theorem isNaN_rounded (u : UnpackedFloat) : (rounded u).isNaN = u.isNaN := by
  match u with
  | .finite s m e hm => exact isNaN_of_isFinite (rounds_round s hm e).finite
  | .zero _ | .infinity _ | .notANumber => rfl

theorem rounded_mono_of_isFinite (hu : Canonical .binary64 u) (hv : Canonical .binary64 v)
    (fu : u.isFinite = true) (fv : v.isFinite = true) (h : u.le v = true) :
    (rounded u).le (rounded v) = true := by
  have left := rounds_rounded fu
  have right := rounds_rounded fv
  rw [le_iff left.canonical right.canonical left.finite right.finite]
  -- Numbers with the same value are the same, but for the sign of a zero.
  rcases ((le_iff hu hv fu fv).mp h).lt_or_eq with lt | eq
  · exact left.mono (by decide) right lt
  · rcases eq_or_zero_of_value_eq hu hv fu fv eq with rfl | zero
    · exact le_rfl
    · have representable : Representable .binary32 0 := ⟨0, 0, by decide, by decide, by norm_num⟩
      rw [zero] at left
      rw [← eq, zero] at right
      rw [left.eq_of_representable representable, right.eq_of_representable representable]

theorem rounded_mono (hu : Canonical .binary64 u) (hv : Canonical .binary64 v)
    (h : u.le v = true) : (rounded u).le (rounded v) = true := by
  obtain ⟨number, number'⟩ := isNaN_of_le h
  rcases isFinite_or_infinity number with fu | rfl | rfl
  · rcases isFinite_or_infinity number' with fv | rfl | rfl
    · exact rounded_mono_of_isFinite hu hv fu fv h
    · exact le_positive_infinity ((isNaN_rounded u).trans number)
    · exact absurd h (Bool.eq_false_iff.mp (not_le_negative_infinity fu))
  · rcases isFinite_or_infinity number' with fv | rfl | rfl
    · exact absurd h (Bool.eq_false_iff.mp (not_positive_infinity_le fv))
    · rfl
    · exact absurd h Bool.false_ne_true
  · exact negative_infinity_le ((isNaN_rounded v).trans number')

theorem toSingle_mono (h : a ≤ b) : toSingle a ≤ toSingle b := by
  refine decide_eq_true_iff.mpr ?_
  have order := rounded_mono (canonical_float a) (canonical_float b) (decide_eq_true_iff.mp h)
  have kept := stored_mono (by decide) (canonical_rounded _) (canonical_rounded _) order
  rwa [← unpack_toSingle, ← unpack_toSingle] at kept

theorem isNaN_toSingle (x : Float) : (toSingle x).isNaN = x.isNaN := by
  have kept := isNaN_stored (by decide) (canonical_rounded x.toModel.unpack)
  rw [← unpack_toSingle, isNaN_rounded] at kept
  exact kept

/-- A conversion to single precision rounds once, and below the largest power of two it does not
overflow. -/
theorem rounds_toSingle (fa : a.isFinite = true) (h : |toRat a| ≤ 2 ^ 127) :
    Rounds .binary32 (toRat a) (toSingle a).toModel.unpack := by
  have rounds : Rounds .binary32 (toRat a) _ := rounds_rounded fa
  have power : Representable .binary32 (2 ^ 127) := ⟨1, 127, by decide, by decide, by norm_num⟩
  obtain ⟨low, high⟩ := abs_le.mp h
  have upper := rounds.le_of_le power high
  have lower := rounds.ge_of_ge power.neg low
  have small : |value (rounded a.toModel.unpack)| < 2 ^ (128 : ℤ) :=
    (abs_le.mpr ⟨lower, upper⟩).trans_lt (by norm_num)
  have fits := fits_of_value_lt (by decide) rounds.canonical small
  rw [unpack_toSingle, stored, unpack_pack (by decide) rounds.canonical fits]
  exact rounds

theorem toSingle_zero : toSingle 0 = 0 := rfl

end Argand.Machine
