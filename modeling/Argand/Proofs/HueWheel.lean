import Argand.Proofs.ExactArithmetic
import Argand.Colour

namespace Argand.Colour

open Exact

variable {K : Type} [Field K] [LinearOrder K] [FloorRing K] {h s v f x : K} {i n : Nat}

/-- The remainder in `[0, 6)`. -/
def modSix (x : K) : K := x - 6 * ⌊x / 6⌋

/-- How much of the saturation a part loses at the place `k` of the wheel. -/
def fade (k : K) : K := max 0 (min k (min (4 - k) 1))

/-- A part of the colour in closed form. All parts are the same function of the hue, of which each
has a start of its own, `n` sixths of a turn on. -/
def wheel (n : Nat) (h s v : K) : K := v - v * s * fade (modSix (n + 6 * h))

/-- What a part is in the sector that is `m` sixths of a turn on, at the place `f` there. -/
def shade (s v f : K) : Nat → K
  | 0 => v * (1 - f * s)
  | 1 | 2 => v * (1 - s)
  | 3 => v * (1 - (1 - f) * s)
  | _ => v

/-- A hue lies in the sector `i` of its turn, at the place `f` there. -/
structure InSector (h : K) (i : Nat) (f : K) : Prop where
  sector : i < 6
  nonneg : 0 ≤ f
  small : f < 1
  place : 6 * Int.fract h = i + f

theorem modSix_eq_fract (x : K) : modSix x = 6 * Int.fract (x / 6) := by
  rw [modSix, Int.fract]
  ring

theorem fade_nonneg (k : K) : 0 ≤ fade k := le_max_left _ _

theorem fade_le_one (k : K) : fade k ≤ 1 :=
  max_le zero_le_one ((min_le_right _ _).trans (min_le_right _ _))

variable [IsStrictOrderedRing K]

theorem remEuclid_one (h : K) : Scalar.remEuclid h 1 = Int.fract h := by
  have one : Scalar.abs (1 : K) = 1 := abs_one
  have cut : Scalar.rem h 1 = h - quotient h 1 := congrArg (h - ·) (mul_one _)
  unfold Scalar.remEuclid
  rw [cut, quotient, div_one, one]
  by_cases nonneg : 0 ≤ h
  · rw [if_pos nonneg]
    exact if_neg (not_lt.mpr (Int.fract_nonneg h))
  · rw [if_neg nonneg]
    have low : -1 < h - ⌈h⌉ := by linarith [Int.ceil_lt_add_one h]
    by_cases below : h - ⌈h⌉ < 0
    · refine (if_pos below).trans (Int.fract_eq_iff.mpr ⟨?_, ?_, ⌈h⌉ - 1, ?_⟩).symm
      · linarith
      · linarith
      · push_cast
        ring
    · refine (if_neg below).trans (Int.fract_eq_iff.mpr ⟨not_lt.mp below, ?_, ⌈h⌉, ?_⟩).symm
      · linarith [Int.le_ceil h]
      · ring

theorem exists_inSector (h : K) : ∃ i f, InSector h i f := by
  have low : 0 ≤ 6 * Int.fract h := by
    have := Int.fract_nonneg h
    positivity
  have high : 6 * Int.fract h < 6 := by
    have := Int.fract_lt_one h
    linarith
  refine ⟨⌊6 * Int.fract h⌋₊, 6 * Int.fract h - ⌊6 * Int.fract h⌋₊, ?_, ?_, ?_, ?_⟩
  · exact (Nat.floor_lt low).mpr (by exact_mod_cast high)
  · exact sub_nonneg.mpr (Nat.floor_le low)
  · have := Nat.lt_floor_add_one (6 * Int.fract h)
    linarith
  · ring

theorem ofHue_of_inSector (hs : InSector h i f) (s v : K) : ofHue h s v =
    (shade s v f ((5 + i) % 6), shade s v f ((3 + i) % 6), shade s v f ((1 + i) % 6)) := by
  have turned : Scalar.remEuclid h 1 * 6.0 = i + f := by
    rw [remEuclid_one, ← hs.place]
    norm_num
    ring
  have sector : Scalar.truncate (i + f) = i := by
    have index : (0 : K) ≤ i := Nat.cast_nonneg i
    have nonneg := hs.nonneg
    refine (Nat.floor_eq_iff (by positivity)).mpr ⟨?_, ?_⟩
    · linarith
    · linarith [hs.small]
  unfold ofHue
  simp only [turned, sector, add_sub_cancel_left]
  have six := hs.sector
  interval_cases i <;> rfl

theorem fade_rising {k : K} (low : 0 ≤ k) (high : k ≤ 1) : fade k = k := by
  rw [fade, min_eq_left (le_min (by linarith) high), max_eq_right low]

theorem fade_full {k : K} (low : 1 ≤ k) (high : k ≤ 3) : fade k = 1 := by
  have full : min k (min (4 - k) 1) = 1 := by
    rw [min_eq_right (show 1 ≤ 4 - k by linarith), min_eq_right low]
  rw [fade, full, max_eq_right zero_le_one]

theorem fade_falling {k : K} (low : 3 ≤ k) (high : k ≤ 4) : fade k = 4 - k := by
  have falling : min k (min (4 - k) 1) = 4 - k := by
    rw [min_eq_left (show 4 - k ≤ 1 by linarith), min_eq_right (by linarith)]
  rw [fade, falling, max_eq_right (by linarith)]

theorem fade_none {k : K} (low : 4 ≤ k) : fade k = 0 := by
  have none : min k (min (4 - k) 1) ≤ 0 :=
    (min_le_right _ _).trans ((min_le_left _ _).trans (by linarith))
  rw [fade, max_eq_left none]

theorem shade_eq {m : Nat} (hm : m < 6) (nonneg : 0 ≤ f) (small : f < 1) (s v : K) :
    shade s v f m = v - v * s * fade (m + f) := by
  match m, hm with
  | 0, _ =>
    rw [Nat.cast_zero, zero_add, fade_rising nonneg small.le, shade]
    ring
  | 1, _ | 2, _ =>
    push_cast
    rw [fade_full (by linarith) (by linarith), shade]
    ring
  | 3, _ =>
    push_cast
    rw [fade_falling (by linarith) (by linarith), shade]
    ring
  | 4, _ | 5, _ =>
    push_cast
    rw [fade_none (by linarith), shade]
    · ring
    all_goals omega

theorem modSix_add (x : K) (turns : ℤ) : modSix (x + 6 * turns) = modSix x := by
  have quotient : (x + 6 * turns) / 6 = x / 6 + turns := by
    field_simp
  rw [modSix, modSix, quotient, Int.floor_add_intCast]
  push_cast
  ring

theorem modSix_of_lt (nonneg : 0 ≤ x) (small : x < 6) : modSix x = x := by
  have floor : ⌊x / 6⌋ = 0 := Int.floor_eq_zero_iff.mpr ⟨by positivity, by linarith⟩
  rw [modSix, floor, Int.cast_zero, mul_zero, sub_zero]

theorem modSix_of_inSector (hs : InSector h i f) (n : Nat) :
    modSix (n + 6 * h) = ((n + i) % 6 : ℕ) + f := by
  obtain ⟨whole, split⟩ : ∃ q : ℕ, (n + i : K) = ((n + i) % 6 : ℕ) + 6 * q :=
    ⟨(n + i) / 6, by exact_mod_cast (Nat.mod_add_div (n + i) 6).symm⟩
  have place : 6 * h = i + f + 6 * ⌊h⌋ := by
    rw [← hs.place, Int.fract]
    ring
  have turns : (n + 6 * h : K) = ((n + i) % 6 : ℕ) + f + 6 * (whole + ⌊h⌋ : ℤ) := by
    rw [place]
    push_cast
    linear_combination split
  have below : (((n + i) % 6 : ℕ) : K) ≤ 5 := by
    exact_mod_cast Nat.le_of_lt_succ (Nat.mod_lt (n + i) (by decide))
  rw [turns, modSix_add, modSix_of_lt]
  · have nonneg := hs.nonneg
    positivity
  · linarith [hs.small]

theorem wheel_of_inSector (hs : InSector h i f) (n : Nat) (s v : K) :
    wheel n h s v = shade s v f ((n + i) % 6) := by
  rw [wheel, modSix_of_inSector hs, shade_eq (Nat.mod_lt _ (by decide)) hs.nonneg hs.small]

theorem ofHue_eq_wheel (h s v : K) :
    ofHue h s v = (wheel 5 h s v, wheel 3 h s v, wheel 1 h s v) := by
  obtain ⟨i, f, hs⟩ := exists_inSector h
  rw [ofHue_of_inSector hs, wheel_of_inSector hs, wheel_of_inSector hs, wheel_of_inSector hs]

theorem wheel_add_one (n : Nat) (h s v : K) : wheel n (h + 1) s v = wheel n h s v := by
  have turn : n + 6 * (h + 1) = n + 6 * h + 6 * (1 : ℤ) := by
    push_cast
    ring
  rw [wheel, turn, modSix_add, wheel]

/-- At the end of a turn the closed formula comes back to where it began. -/
theorem continuous_wheel [TopologicalSpace K] [OrderTopology K] (n : Nat) (s v : K) :
    Continuous fun h => wheel n h s v := by
  have inside : Continuous fun t : K => v - v * s * fade (6 * t) := by
    unfold fade
    fun_prop
  have ends : v - v * s * fade (6 * 0) = v - v * s * fade (6 * 1) := by
    rw [mul_zero, mul_one, fade_rising le_rfl zero_le_one, fade_none (by norm_num)]
  have turning : Continuous fun t : K => v - v * s * fade (6 * Int.fract t) :=
    inside.continuousOn.comp_fract'' ends
  have scaled : Continuous fun h : K => (n + 6 * h) / 6 := by fun_prop
  have whole := turning.comp scaled
  simp only [Function.comp_def, ← modSix_eq_fract] at whole
  exact whole

theorem wheel_bounds (hs : 0 ≤ s) (hv : 0 ≤ v) (n : Nat) (h : K) :
    v * (1 - s) ≤ wheel n h s v ∧ wheel n h s v ≤ v := by
  have full : 0 ≤ v * s := mul_nonneg hv hs
  have lost := mul_nonneg full (fade_nonneg (modSix (n + 6 * h)))
  have kept := mul_nonneg full (sub_nonneg.mpr (fade_le_one (modSix (n + 6 * h))))
  unfold wheel
  constructor <;> linarith

/-- In every sector one part is the value and one has lost the whole saturation. -/
theorem wheel_attained (h s v : K) :
    (wheel 5 h s v = v ∨ wheel 3 h s v = v ∨ wheel 1 h s v = v) ∧
      (wheel 5 h s v = v * (1 - s) ∨ wheel 3 h s v = v * (1 - s) ∨
        wheel 1 h s v = v * (1 - s)) := by
  obtain ⟨i, f, hs⟩ := exists_inSector h
  rw [wheel_of_inSector hs, wheel_of_inSector hs, wheel_of_inSector hs]
  have six := hs.sector
  interval_cases i <;> simp [shade]

/-- The conversion by sectors is the closed formula. It has the period of a turn, no jump from one
sector to the next, and the value and what the whole saturation leaves of it as its extremes. -/
theorem ofHue_wheel [TopologicalSpace K] [OrderTopology K] (h s v : K) :
    ofHue h s v = (wheel 5 h s v, wheel 3 h s v, wheel 1 h s v) ∧
      ofHue (h + 1) s v = ofHue h s v ∧
      Continuous (fun h => ofHue h s v) ∧
      (0 ≤ s → 0 ≤ v →
        let (red, green, blue) := ofHue h s v
        max red (max green blue) = v ∧ min red (min green blue) = v * (1 - s)) := by
  refine ⟨ofHue_eq_wheel h s v, ?_, ?_, fun hs hv => ?_⟩
  · simp only [ofHue_eq_wheel, wheel_add_one]
  · simp only [ofHue_eq_wheel]
    exact (continuous_wheel 5 s v).prodMk ((continuous_wheel 3 s v).prodMk (continuous_wheel 1 s v))
  · obtain ⟨largest, smallest⟩ := wheel_attained h s v
    have red := wheel_bounds hs hv 5 h
    have green := wheel_bounds hs hv 3 h
    have blue := wheel_bounds hs hv 1 h
    rw [ofHue_eq_wheel]
    refine ⟨le_antisymm (max_le red.2 (max_le green.2 blue.2)) ?_,
      le_antisymm ?_ (le_min red.1 (le_min green.1 blue.1))⟩
    · simpa only [le_max_iff] using largest.imp Eq.ge (Or.imp Eq.ge Eq.ge)
    · simpa only [min_le_iff] using smallest.imp Eq.le (Or.imp Eq.le Eq.le)

/-- A hue of three turns back and a twelfth. -/
theorem ofHue_wheel_back : (0 : ℚ) ≤ 3 / 4 ∧ (0 : ℚ) ≤ 1 ∧
    ofHue (-35 / 12 : ℚ) (3 / 4) 1 = (1, 5 / 8, 1 / 4) ∧
    ofHue (-35 / 12 + 1 : ℚ) (3 / 4) 1 = (1, 5 / 8, 1 / 4) ∧
    max (1 : ℚ) (max (5 / 8) (1 / 4)) = 1 ∧
    min (1 : ℚ) (min (5 / 8) (1 / 4)) = 1 * (1 - 3 / 4) := by
  have saturated : (0 : ℚ) ≤ 3 / 4 := by norm_num
  obtain ⟨-, period, -, extremes⟩ := ofHue_wheel (-35 / 12 : ℚ) (3 / 4) 1
  have parts : ofHue (-35 / 12 : ℚ) (3 / 4) 1 = (1, 5 / 8, 1 / 4) := by decide +kernel
  have extremes := extremes saturated zero_le_one
  rw [parts] at extremes period
  exact ⟨saturated, zero_le_one, parts, period, extremes⟩

end Argand.Colour
