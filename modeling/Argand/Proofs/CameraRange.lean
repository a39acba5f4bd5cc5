import Argand.Proofs.SingleNumber
import Argand.Window.Plotter

namespace Argand.Plotter

open Machine
open Float.Model (Format)

variable {p : Plotter} {a e x : Float32}

/-- Turns the camera by each pair of angles in order. -/
def turnThrough (turns : List (Float32 × Float32)) (p : Plotter) : Plotter :=
  turns.foldl (fun p angles => p.turn angles.1 angles.2) p

/-- Half the distance from a full turn to the number before it. -/
def halfUnit : ℚ := 1 / 2 ^ 22

/-! The full turn and the numbers about it. -/

theorem singleToRat_fullTurn : singleToRat fullTurn = 13176795 * (2 * halfUnit) := by
  rw [@singleToRat_of_unpack fullTurn 13176795 (-21) (by decide) rfl, halfUnit]
  norm_num

theorem singleToRat_zero : singleToRat 0 = 0 := rfl

theorem representable_before_fullTurn :
    Representable .binary32 (singleToRat fullTurn - 2 * halfUnit) := by
  refine ⟨13176794, -21, by decide, by decide, ?_⟩
  rw [singleToRat_fullTurn, halfUnit]
  norm_num

/-- No number lies between a full turn and the one before it. -/
theorem eq_fullTurn_of_gt (fx : x.isFinite = true)
    (h : singleToRat fullTurn - 2 * halfUnit < singleToRat x)
    (h' : singleToRat x ≤ singleToRat fullTurn) : x = fullTurn := by
  have pos : 0 < 2 * halfUnit := by norm_num [halfUnit]
  have unit : (2 : ℚ) ^ (-21 : ℤ) = 2 * halfUnit := by norm_num [halfUnit]
  rw [singleToRat_fullTurn] at h h'
  have large : 2 ^ Format.binary32.mantissaBits * 2 ^ (-21 - 1 : ℤ) < singleToRat x := by
    have four : (2 : ℚ) ^ Format.binary32.mantissaBits * 2 ^ (-21 - 1 : ℤ) = 4 := by
      norm_num [Format.mantissaBits]
    have nearFull : (4 : ℚ) < 13176795 * (2 * halfUnit) - 2 * halfUnit := by norm_num [halfUnit]
    rw [four]
    exact nearFull.trans h
  obtain ⟨j, eq⟩ := (representable_single x).eq_multiple large
  rw [eq, unit] at h h'
  have above : (13176794 : ℚ) < j := lt_of_mul_lt_mul_right (by linarith) pos.le
  have below : (j : ℚ) ≤ 13176795 := le_of_mul_le_mul_right h' pos
  have above' : 13176794 < j := by exact_mod_cast above
  have below' : j ≤ 13176795 := by exact_mod_cast below
  have same : j = 13176795 := by omega
  refine single_eq_of_singleToRat_eq fx rfl ?_ (large.trans' (by positivity)).ne'
  rw [eq, unit, same, singleToRat_fullTurn]
  norm_num

/-! A remainder below zero is moved up by a full turn. -/

theorem rounds_add_fullTurn (fx : x.isFinite = true)
    (small : |singleToRat x| < singleToRat fullTurn) :
    Rounds .binary32 (singleToRat x + singleToRat fullTurn) (x + fullTurn).toModel.unpack := by
  have bound : singleToRat fullTurn < 2 ^ 103 := by
    rw [singleToRat_fullTurn]
    norm_num [halfUnit]
  exact rounds_single_add fx rfl (small.trans bound)

theorem add_fullTurn_eq (fx : x.isFinite = true) (low : -halfUnit < singleToRat x)
    (neg : singleToRat x < 0) : x + fullTurn = fullTurn := by
  have small : |singleToRat x| < singleToRat fullTurn := by
    have unit : halfUnit < singleToRat fullTurn := by
      rw [singleToRat_fullTurn]
      norm_num [halfUnit]
    rw [abs_of_neg neg]
    linarith
  have rounds := rounds_add_fullTurn fx small
  have upper : singleToRat (x + fullTurn) ≤ singleToRat fullTurn :=
    rounds.le_of_le (representable_single fullTurn) (by linarith)
  have near := rounds.nearest _ (representable_single fullTurn)
  have away := neg_abs_le (singleToRat (x + fullTurn) - (singleToRat x + singleToRat fullTurn))
  rw [sub_add_cancel_right, abs_neg, abs_of_neg neg] at near
  have lower : singleToRat fullTurn - 2 * halfUnit < singleToRat (x + fullTurn) := by
    change |singleToRat (x + fullTurn) - _| ≤ _ at near
    linarith
  exact eq_fullTurn_of_gt rounds.finite lower upper

/-- At half a unit below, the tie goes to the number with the even significand. -/
theorem add_fullTurn_lt_of_tie (fx : x.isFinite = true) (tie : singleToRat x = -halfUnit) :
    x + fullTurn < fullTurn := by
  have value : singleToRat (-2.384185791015625e-7) = -halfUnit := by
    change Machine.value (.finite .negative (2 ^ 23) (-45) (by decide)) = _
    rw [value_negative, halfUnit]
    norm_num
  have same : x = -2.384185791015625e-7 :=
    single_eq_of_singleToRat_eq fx rfl (tie.trans value.symm) (by rw [tie]; norm_num [halfUnit])
  rw [same]
  decide

theorem add_fullTurn_lt (fx : x.isFinite = true) (low : -singleToRat fullTurn < singleToRat x)
    (high : singleToRat x ≤ -halfUnit) : x + fullTurn < fullTurn := by
  rcases high.eq_or_lt with tie | high
  · exact add_fullTurn_lt_of_tie fx tie
  have pos : 0 < halfUnit := by norm_num [halfUnit]
  have rounds := rounds_add_fullTurn fx (abs_lt.mpr ⟨low, by linarith⟩)
  rw [single_lt_iff rounds.finite rfl]
  have upper : singleToRat (x + fullTurn) ≤ singleToRat fullTurn :=
    rounds.le_of_le (representable_single fullTurn) (by linarith)
  refine upper.lt_of_ne fun full => ?_
  -- The number before a full turn would be nearer.
  have near := rounds.nearest _ representable_before_fullTurn
  change |singleToRat (x + fullTurn) - _| ≤ _ at near
  rw [full, sub_add_cancel_right, abs_neg, abs_of_neg (by linarith)] at near
  rcases abs_cases (singleToRat fullTurn - 2 * halfUnit -
    (singleToRat x + singleToRat fullTurn)) with ⟨eq, -⟩ | ⟨eq, -⟩ <;> linarith

/-- The angle to which the camera comes, from the angle that it turns to. The half-open interval is
missed by the smallest remainders below zero only. -/
theorem remEuclid_fullTurn (fx : x.isFinite = true) :
    ∃ r, IsRemainder (singleToRat x) (singleToRat fullTurn) r ∧
      Rounds .binary32 (if r < 0 then r + singleToRat fullTurn else r)
        (Scalar.remEuclid x fullTurn).toModel.unpack ∧
      0 ≤ Scalar.remEuclid x fullTurn ∧ Scalar.remEuclid x fullTurn ≤ fullTurn ∧
      (Scalar.remEuclid x fullTurn < fullTurn ↔ ¬ (-halfUnit < r ∧ r < 0)) := by
  have pos : 0 < singleToRat fullTurn := by
    rw [singleToRat_fullTurn]
    norm_num [halfUnit]
  obtain ⟨finite, remains⟩ := isRemainder_single (y := fullTurn) fx rfl pos.ne'
  refine ⟨_, remains, ?_⟩
  obtain ⟨low, high⟩ := abs_lt.mp (remains.small.trans_eq (abs_of_pos pos))
  have sign := single_lt_iff (y := 0) finite rfl
  rw [singleToRat_zero] at sign
  by_cases neg : Scalar.rem x fullTurn < 0
  · have moved : Scalar.remEuclid x fullTurn = Scalar.rem x fullTurn + fullTurn := if_pos neg
    have below := sign.mp neg
    have rounds := rounds_add_fullTurn finite (abs_lt.mpr ⟨low, high⟩)
    rw [moved, if_pos below]
    refine ⟨rounds, ?_, ?_, ?_⟩
    · rw [single_le_iff rfl rounds.finite]
      exact rounds.ge_of_ge (representable_single 0) (by rw [singleToRat_zero]; linarith)
    · rw [single_le_iff rounds.finite rfl]
      exact rounds.le_of_le (representable_single fullTurn) (by linarith)
    · constructor
      · rintro lt ⟨near, -⟩
        rw [add_fullTurn_eq finite near below] at lt
        exact absurd lt (by decide)
      · intro far
        exact add_fullTurn_lt finite low (not_lt.mp fun near => far ⟨near, below⟩)
  · have same : Scalar.remEuclid x fullTurn = Scalar.rem x fullTurn := if_neg neg
    have above : 0 ≤ singleToRat (Scalar.rem x fullTurn) := not_lt.mp (mt sign.mpr neg)
    rw [same, if_neg (not_lt.mpr above), single_le_iff rfl finite, single_le_iff finite rfl,
      single_lt_iff finite rfl]
    exact ⟨Rounds.self (canonical_single _) finite, above, high.le,
      fun _ small => absurd small.2 (not_lt.mpr above), fun _ => high⟩

/-! The ranges hold when the window opens and after every turn. -/

/-- Both angles are between their bounds, which they may reach. -/
structure InRange (p : Plotter) : Prop where
  azimuth_ge : 0 ≤ p.azimuth
  azimuth_le : p.azimuth ≤ fullTurn
  elevation_ge : -maxElevation ≤ p.elevation
  elevation_le : p.elevation ≤ maxElevation

theorem inRange_initial : InRange initial :=
  ⟨by decide, by decide, by decide, by decide⟩

/-- What is added to a number between small bounds does not overflow. -/
theorem rounds_add_of_between {low high : Float32} (hl : low ≤ x) (hh : x ≤ high)
    (fl : low.isFinite = true) (fh : high.isFinite = true)
    (sl : |singleToRat low| < 2 ^ 103) (sh : |singleToRat high| < 2 ^ 103)
    (fa : a.isFinite = true) :
    Rounds .binary32 (singleToRat x + singleToRat a) (x + a).toModel.unpack := by
  have fx : x.isFinite = true :=
    isFinite_of_le fl fh (decide_eq_true_iff.mp hl) (decide_eq_true_iff.mp hh)
  have lower := (single_le_iff fl fx).mp hl
  have upper := (single_le_iff fx fh).mp hh
  exact rounds_single_add fx fa
    (abs_lt.mpr ⟨(abs_lt.mp sl).1.trans_le lower, upper.trans_lt (abs_lt.mp sh).2⟩)

theorem InRange.rounds_azimuth (h : InRange p) (fa : a.isFinite = true) :
    Rounds .binary32 (singleToRat p.azimuth + singleToRat a) (p.azimuth + a).toModel.unpack := by
  refine rounds_add_of_between h.azimuth_ge h.azimuth_le rfl rfl ?_ ?_ fa
  · rw [singleToRat_zero]
    norm_num
  · rw [singleToRat_fullTurn]
    norm_num [halfUnit, abs_lt]

theorem singleToRat_maxElevation : singleToRat maxElevation = 3 / 2 := by
  rw [@singleToRat_of_unpack maxElevation (3 * 2 ^ 22) (-23) (by decide) rfl]
  norm_num

theorem singleToRat_neg_maxElevation : singleToRat (-maxElevation) = -(3 / 2) := by
  change value (.finite .negative (3 * 2 ^ 22) (-23) (by decide)) = _
  rw [value_negative]
  norm_num

theorem InRange.rounds_elevation (h : InRange p) (fe : e.isFinite = true) :
    Rounds .binary32 (singleToRat p.elevation + singleToRat e)
      (p.elevation + e).toModel.unpack := by
  refine rounds_add_of_between h.elevation_ge h.elevation_le rfl rfl ?_ ?_ fe
  · rw [singleToRat_neg_maxElevation]
    norm_num [abs_lt]
  · rw [singleToRat_maxElevation]
    norm_num [abs_lt]

/-- A finite number is clamped as the rational number for which it stands. -/
theorem clamp_finite {low high : Float32} (fx : x.isFinite = true) (fl : low.isFinite = true)
    (fh : high.isFinite = true) (order : singleToRat low ≤ singleToRat high) :
    (Scalar.clamp low high x).isFinite = true ∧ singleToRat (Scalar.clamp low high x) =
      max (singleToRat low) (min (singleToRat high) (singleToRat x)) := by
  unfold Scalar.clamp
  split
  next below =>
    have lt := (single_lt_iff fx fl).mp below
    exact ⟨fl, by rw [min_eq_right (by linarith), max_eq_left lt.le]⟩
  next inside =>
    have above := not_lt.mp (mt (single_lt_iff fx fl).mpr inside)
    split
    next beyond =>
      have lt := (single_lt_iff fh fx).mp beyond
      exact ⟨fh, by rw [min_eq_left lt.le, max_eq_right order]⟩
    next inside' =>
      have le := not_lt.mp (mt (single_lt_iff fh fx).mpr inside')
      exact ⟨fx, by rw [min_eq_right le, max_eq_right above]⟩

theorem InRange.turn_elevation (h : InRange p) (fe : e.isFinite = true) :
    (p.turn a e).elevation.isFinite = true ∧ singleToRat (p.turn a e).elevation =
      max (-(3 / 2)) (min (3 / 2) (singleToRat (p.elevation + e))) := by
  have order : singleToRat (-maxElevation) ≤ singleToRat maxElevation := by
    rw [singleToRat_neg_maxElevation, singleToRat_maxElevation]
    norm_num
  have clamped := clamp_finite (h.rounds_elevation fe).finite rfl rfl order
  rwa [singleToRat_neg_maxElevation, singleToRat_maxElevation] at clamped

theorem InRange.turn (h : InRange p) (fa : a.isFinite = true) (fe : e.isFinite = true) :
    InRange (p.turn a e) := by
  obtain ⟨-, -, -, azimuth_ge, azimuth_le, -⟩ := remEuclid_fullTurn (h.rounds_azimuth fa).finite
  obtain ⟨finite, clamped⟩ := h.turn_elevation (a := a) fe
  refine ⟨azimuth_ge, azimuth_le, ?_, ?_⟩
  · rw [single_le_iff rfl finite, clamped, singleToRat_neg_maxElevation]
    exact le_max_left _ _
  · rw [single_le_iff finite rfl, clamped, singleToRat_maxElevation]
    exact max_le (by norm_num) (min_le_left _ _)

theorem InRange.turnThrough {turns : List (Float32 × Float32)} (h : InRange p)
    (finite : ∀ angles ∈ turns, angles.1.isFinite = true ∧ angles.2.isFinite = true) :
    InRange (p.turnThrough turns) := by
  induction turns generalizing p with
  | nil => exact h
  | cons angles turns ih =>
    obtain ⟨⟨fa, fe⟩, rest⟩ := List.forall_mem_cons.mp finite
    exact ih (h.turn fa fe) rest

/-- After any turns by finite angles the camera is in its range. The tilt is the nearest number to
the sum, or the bound that is nearer. The azimuth is the remainder of the nearest number to the sum,
or the nearest number to a full turn more; it misses the half-open interval for those remainders
below zero, and only those, that a full turn more rounds to a full turn. -/
theorem turnThrough_camera {turns : List (Float32 × Float32)}
    (finite : ∀ angles ∈ turns, angles.1.isFinite = true ∧ angles.2.isFinite = true)
    (fa : a.isFinite = true) (fe : e.isFinite = true) :
    let before := initial.turnThrough turns
    let after := before.turn a e
    InRange after ∧
      Rounds .binary32 (singleToRat before.elevation + singleToRat e)
        (before.elevation + e).toModel.unpack ∧
      singleToRat after.elevation =
        max (-(3 / 2)) (min (3 / 2) (singleToRat (before.elevation + e))) ∧
      Rounds .binary32 (singleToRat before.azimuth + singleToRat a)
        (before.azimuth + a).toModel.unpack ∧
      ∃ r, IsRemainder (singleToRat (before.azimuth + a)) (singleToRat fullTurn) r ∧
        Rounds .binary32 (if r < 0 then r + singleToRat fullTurn else r)
          after.azimuth.toModel.unpack ∧
        (after.azimuth < fullTurn ↔ ¬ (-halfUnit < r ∧ r < 0)) := by
  have h : InRange (initial.turnThrough turns) := inRange_initial.turnThrough finite
  obtain ⟨r, remains, nearest, -, -, missed⟩ := remEuclid_fullTurn (h.rounds_azimuth fa).finite
  exact ⟨h.turn fa fe, h.rounds_elevation fe, (h.turn_elevation fe).2, h.rounds_azimuth fa,
    r, remains, nearest, missed⟩

/-- A turn back past the direction of the start by less than half a unit comes to a full turn. -/
theorem turnThrough_camera_full_turn :
    InRange ((initial.turnThrough [(0, 10)]).turn (-0.6000001) 0) ∧
      ((initial.turnThrough [(0, 10)]).turn (-0.6000001) 0).azimuth = fullTurn :=
  ⟨(@turnThrough_camera (-0.6000001) 0 [(0, 10)] (by decide) (by decide) (by decide)).1,
    by decide +kernel⟩

end Argand.Plotter
