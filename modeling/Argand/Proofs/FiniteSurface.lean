import Argand.Proofs.SinglePrecision
import Argand.Proofs.SweepSamples

namespace Argand.Plot

open Machine

/-- What a plot takes for granted of the mathematical library, within the range of bounded values,
and of the conversion to single precision. -/
structure Platform [Elementary Float] [Narrowing Float Float32] : Prop where
  pi_eq : (Elementary.pi : Float) = 3.141592653589793
  hypot_range : ∀ x y : Float, x.abs ≤ 1e9 → y.abs ≤ 1e9 →
    0 ≤ Elementary.hypot x y ∧ Elementary.hypot x y ≤ 2e9
  atan2_range : ∀ y x : Float, y.isFinite = true → x.isFinite = true →
    -Elementary.pi ≤ Elementary.atan2 y x ∧ Elementary.atan2 y x ≤ Elementary.pi
  log1p_range : ∀ x : Float, 0 ≤ x → x ≤ 2e9 → 0 ≤ Elementary.log1p x ∧ Elementary.log1p x ≤ 2e9
  narrow_finite : ∀ x : Float, -2e9 ≤ x → x ≤ 2e9 →
    (Narrowing.narrow x : Float32).isFinite = true
  narrow_mono : ∀ x y : Float, -2e9 ≤ x → x ≤ 2e9 → -2e9 ≤ y → y ≤ 2e9 → x ≤ y →
    (Narrowing.narrow x : Float32) ≤ Narrowing.narrow y
  narrow_zero : Narrowing.narrow (0 : Float) = (0 : Float32)

theorem toRat_zero : toRat 0 = 0 := rfl

theorem toRat_one : toRat 1 = 1 := by
  rw [@toRat_of_unpack 1 (2 ^ 52) (-52) (by decide) rfl]
  norm_num

theorem toRat_limit : toRat 1e9 = 1000000000 := by
  rw [@toRat_of_unpack 1e9 (1000000000 * 2 ^ 23) (-23) (by decide) rfl]
  norm_num

theorem toRat_double_limit : toRat 2e9 = 2000000000 := by
  rw [@toRat_of_unpack 2e9 (1000000000 * 2 ^ 23) (-22) (by decide) rfl]
  norm_num

/-- Twice the machine number next to the half turn is a machine number. -/
theorem toRat_full_turn : 0 < toRat (2.0 * 3.141592653589793) ∧
    toRat (2.0 * 3.141592653589793) = 2 * toRat 3.141592653589793 := by
  rw [@toRat_of_unpack 3.141592653589793 7074237752028440 (-51) (by decide) rfl,
    @toRat_of_unpack (2.0 * 3.141592653589793) 7074237752028440 (-50) (by decide) rfl]
  constructor <;> norm_num

abbrev Bounded (x : Float) : Prop := Within (-1000000000) 1000000000 x

/-- Values of which the logarithm may be taken, and those that can be narrowed. -/
abbrev Moderate (x : Float) : Prop := Within (-2000000000) 2000000000 x

theorem Bounded.moderate {x : Float} (h : Bounded x) : Moderate x :=
  h.mono (by norm_num) (by norm_num)

theorem moderate_iff {x : Float} : Moderate x ↔ -2e9 ≤ x ∧ x ≤ 2e9 := by
  have low : toRat (-2e9) = -2000000000 := by
    rw [toRat_neg, toRat_double_limit]
  constructor
  · intro h
    exact ⟨(float_le_iff rfl h.finite).mpr (low.le.trans h.ge),
      (float_le_iff h.finite rfl).mpr (h.le.trans toRat_double_limit.ge)⟩
  · rintro ⟨ge, le⟩
    exact (Within.of_le rfl rfl ge le).mono low.ge toRat_double_limit.le

theorem within_limit : Within 1000000000 1000000000 (Complex.limit : Float) :=
  ⟨rfl, toRat_limit.ge, toRat_limit.le⟩

theorem bounded_of_abs {x : Float} (fx : x.isFinite = true)
    (h : ¬ (Complex.limit : Float) < Scalar.abs x) : Bounded x := by
  have le : ¬ toRat 1e9 < toRat x.abs := fun hlt =>
    h ((float_lt_iff within_limit.finite (isFinite_abs fx)).mpr hlt)
  rw [toRat_limit, toRat_abs, not_lt, abs_le] at le
  exact ⟨fx, le.1, le.2⟩

/-- Every value is bounded, an undefined or infinite one too. -/
theorem within_bounded (x : Float) : Bounded (Complex.bounded x) := by
  unfold Complex.bounded Scalar.isUndefined Scalar.clamp
  split
  next => exact within_limit.mono (by norm_num) le_rfl
  next hn =>
    have defined : x.isNaN = false := isNaN_of_beq_self (by simpa using hn)
    have low := within_limit.neg
    split
    next => exact low.mono le_rfl (by norm_num)
    next hl =>
      split
      next => exact within_limit.mono (by norm_num) le_rfl
      next hh =>
        have within := Within.of_le low.finite within_limit.finite
          (float_le_of_not_lt defined low.not_nan hl)
          (float_le_of_not_lt within_limit.not_nan defined hh)
        exact within.mono low.ge within_limit.le

theorem bounded_bound (z : Complex Float) : Bounded z.bound.1.re ∧ Bounded z.bound.1.im := by
  unfold Complex.bound
  split
  next hz =>
    unfold Complex.fault? at hz
    split at hz
    next => simp at hz
    next hf =>
      split at hz
      next => simp at hz
      next hr =>
        simp only [Complex.isFinite, Bool.not_eq_true', Bool.not_eq_false, Bool.and_eq_true] at hf
        simp only [Bool.or_eq_true, decide_eq_true_eq, not_or] at hr
        exact ⟨bounded_of_abs hf.1 hr.1, bounded_of_abs hf.2 hr.2⟩
  next => exact ⟨within_bounded z.re, within_bounded z.im⟩

theorem Moderate.abs {x : Float} (h : Moderate x) : 0 ≤ x.abs ∧ x.abs ≤ 2e9 := by
  have fx := isFinite_abs h.finite
  refine ⟨(float_le_iff rfl fx).mpr ?_, (float_le_iff fx rfl).mpr ?_⟩
  · rw [toRat_abs, toRat_zero]
    exact abs_nonneg _
  · rw [toRat_abs, toRat_double_limit]
    exact abs_le.mpr ⟨h.ge, h.le⟩

theorem storable_one : Storable 1 := by
  exact_mod_cast storable_natCast (n := 1) (by decide)

theorem storable_zero : Storable 0 := by
  exact_mod_cast storable_natCast (n := 0) (by decide)

/-- A coordinate is within reach even if the sizes have wrapped, which makes them smaller. -/
theorem within_latticeCoordinate {n k m : Nat} (hn : 0 < n) (hn' : n < 2 ^ 32) (hk : k ≤ 20 * n)
    (hm : m ≤ 10 * n) : Within (-10) 20 ((floatOfNat k - floatOfNat m) / floatOfNat n) := by
  have index := within_floatOfNat (n := k) (by omega)
  have half := within_floatOfNat (n := m) (by omega)
  have unit := within_floatOfNat (n := n) (by omega)
  have storable : Storable ((k : ℚ) - m) := by
    exact_mod_cast storable_intCast (i := k - m) (by omega)
  have difference := index.sub half storable storable
  have pos : (0 : ℚ) < n := by exact_mod_cast hn
  have value : toRat (floatOfNat n) = n := le_antisymm unit.le unit.ge
  have top : (k : ℚ) ≤ 20 * n := by exact_mod_cast hk
  have bottom : (0 : ℚ) ≤ k := Nat.cast_nonneg k
  have middle : (m : ℚ) ≤ 10 * n := by exact_mod_cast hm
  have bottom' : (0 : ℚ) ≤ m := Nat.cast_nonneg m
  have low := difference.ge
  have high := difference.le
  have ten : Storable 10 := by exact_mod_cast storable_natCast (n := 10) (by decide)
  have twenty : Storable 20 := by exact_mod_cast storable_natCast (n := 20) (by decide)
  exact within_div difference.finite unit.finite (by rw [value]; exact pos) ten.neg twenty
    (by rw [value]; linarith) (by rw [value]; linarith)

section Platform

variable [Elementary Float] [Narrowing Float Float32]

theorem Platform.moderate_log1p (hp : Platform) {x : Float} (h : Moderate x) :
    Moderate (Elementary.log1p x.abs) := by
  obtain ⟨ge, le⟩ := h.abs
  obtain ⟨low, high⟩ := hp.log1p_range x.abs ge le
  exact (Within.of_le rfl rfl low high).mono (by rw [toRat_zero]; norm_num) toRat_double_limit.le

theorem Platform.moderate_compressHeight (hp : Platform) {h : Float} (hh : Moderate h) :
    Moderate (compressHeight h) := by
  have log := hp.moderate_log1p hh
  unfold compressHeight
  split
  next => exact ⟨rfl, by rw [toRat_zero]; norm_num, by rw [toRat_zero]; norm_num⟩
  next =>
    split
    next => exact log.neg.mono (by norm_num) (by norm_num)
    next => exact log

theorem Platform.moderate_norm (hp : Platform) {w : Complex Float} (hre : Bounded w.re)
    (him : Bounded w.im) : Moderate w.norm := by
  have leg {x : Float} (h : Bounded x) : x.abs ≤ 1e9 := by
    refine (float_le_iff (isFinite_abs h.finite) rfl).mpr ?_
    rw [toRat_abs, toRat_limit]
    exact abs_le.mpr ⟨h.ge, h.le⟩
  obtain ⟨low, high⟩ := hp.hypot_range w.re w.im (leg hre) (leg him)
  exact (Within.of_le rfl rfl low high).mono (by rw [toRat_zero]; norm_num) toRat_double_limit.le

/-- Before it is made positive, an angle is at most one turn in either direction. -/
theorem Platform.within_quotient (hp : Platform) {w : Complex Float} (fr : w.re.isFinite = true)
    (fi : w.im.isFinite = true) :
    Within (-1) 1 (w.arg / (2.0 * Elementary.pi)) := by
  obtain ⟨low, high⟩ := hp.atan2_range w.im w.re fi fr
  rw [hp.pi_eq] at low high ⊢
  obtain ⟨pos, double⟩ := toRat_full_turn
  have half : Within _ _ w.arg := Within.of_le rfl rfl low high
  have ge := half.ge
  have le := half.le
  rw [toRat_neg] at ge
  rw [double] at pos
  exact within_div half.finite rfl (by rw [double]; exact pos) storable_one.neg storable_one
    (by rw [double]; linarith) (by rw [double]; linarith)

/-- The angle is a part of a turn, and less than the whole even when it is narrowed. -/
theorem Platform.within_turn (hp : Platform) {w : Complex Float} (fr : w.re.isFinite = true)
    (fi : w.im.isFinite = true) :
    Within 0 1 (w.turn Float32) ∧ ¬ (1 : Float32) ≤ Narrowing.narrow (w.turn Float32) := by
  have quotient := hp.within_quotient fr fi
  have wrapped : Within 0 1 (if w.arg / (2.0 * Elementary.pi) < 0
      then w.arg / (2.0 * Elementary.pi) + 1 else w.arg / (2.0 * Elementary.pi)) := by
    split
    next h =>
      have below := (float_lt_iff quotient.finite rfl).mp h
      have negative : Within (-1) 0 (w.arg / (2.0 * Elementary.pi)) :=
        ⟨quotient.finite, quotient.ge, below.le⟩
      have one : Within 1 1 (1 : Float) := ⟨rfl, toRat_one.ge, toRat_one.le⟩
      have sum := negative.add one (by norm_num; exact storable_zero)
        (by norm_num; exact storable_one)
      norm_num at sum
      exact sum
    next h =>
      have above := not_lt.mp (mt (float_lt_iff quotient.finite rfl).mpr h)
      exact ⟨quotient.finite, above, quotient.le⟩
  unfold Complex.turn
  dsimp only
  -- The sum may round up to a full turn, and a turn may when it is narrowed: the comparison that
  -- is left finds both.
  generalize (if w.arg / (2.0 * Elementary.pi) < 0 then w.arg / (2.0 * Elementary.pi) + 1
    else w.arg / (2.0 * Elementary.pi)) = t at wrapped ⊢
  split
  next =>
    refine ⟨⟨rfl, toRat_zero.ge, by rw [toRat_zero]; norm_num⟩, ?_⟩
    rw [hp.narrow_zero]
    decide
  next h => exact ⟨wrapped, h⟩

/-- The entry of a point is finite, and an angle is a part of a turn. -/
structure FiniteSample (mode : Mode) (s : Sample Float32) : Prop where
  x : s.x.isFinite = true
  height : s.height.isFinite = true
  z : s.z.isFinite = true
  channel : s.channel.isFinite = true
  turn : mode = .length → 0 ≤ s.channel ∧ s.channel < 1

theorem Platform.narrow_isFinite (hp : Platform) {x : Float} (h : Moderate x) :
    (Narrowing.narrow x : Float32).isFinite = true := by
  obtain ⟨low, high⟩ := moderate_iff.mp h
  exact hp.narrow_finite x low high

theorem Platform.narrow_nonneg (hp : Platform) {x : Float} (h : Moderate x) (pos : 0 ≤ toRat x) :
    (0 : Float32) ≤ Narrowing.narrow x := by
  obtain ⟨low, high⟩ := moderate_iff.mp h
  have le : (0 : Float) ≤ x := (float_le_iff rfl h.finite).mpr (toRat_zero.le.trans pos)
  have mono := hp.narrow_mono 0 x (by decide) (by decide) low high le
  rwa [hp.narrow_zero] at mono

theorem Platform.moderate_split (hp : Platform) (mode : Mode) {w : Complex Float}
    (hre : Bounded w.re) (him : Bounded w.im) :
    Moderate (mode.split Float32 w).1 ∧ Moderate (mode.split Float32 w).2 := by
  have turn := (hp.within_turn hre.finite him.finite).1
  cases mode with
  | real => exact ⟨hre.moderate, him.moderate⟩
  | imaginary => exact ⟨him.moderate, hre.moderate⟩
  | length => exact ⟨hp.moderate_norm hre him, turn.mono (by norm_num) (by norm_num)⟩

theorem Platform.finiteSample (hp : Platform) (p : Parameters) {z : Complex Float}
    (value : Complex Float) (hre : Within (-10) 20 z.re) (him : Within (-10) 20 z.im) :
    FiniteSample p.mode (sampleOfValue p z value) := by
  obtain ⟨re, im⟩ := bounded_bound value
  obtain ⟨height, channel⟩ := hp.moderate_split p.mode re im
  refine ⟨hp.narrow_isFinite (hre.mono (by norm_num) (by norm_num)), hp.narrow_isFinite ?_,
    hp.narrow_isFinite (him.mono (by norm_num) (by norm_num)), hp.narrow_isFinite channel, ?_⟩
  · split_ifs
    · exact hp.moderate_compressHeight height
    · exact height
  · intro length
    obtain ⟨turn, below⟩ := hp.within_turn re.finite im.finite
    have moderate : Moderate (Complex.turn Float32 _) := turn.mono (by norm_num) (by norm_num)
    rw [sampleOfValue, length]
    exact ⟨hp.narrow_nonneg moderate turn.ge,
      single_lt_of_not_le rfl (hp.narrow_isFinite moderate) below⟩

theorem Platform.finiteSample_sampleAt (hp : Platform) (w : Nat) (g : Grid)
    (hword : g.resolution < 2 ^ 32) (p : Parameters) (x : Expr Float) {index : Nat}
    (hi : index < g.pointCount w) : FiniteSample p.mode (sampleAt w g p x index) := by
  have segments : g.segments w ≤ 20 * g.resolution := g.segments_eq_mod w ▸ Nat.mod_le _ _
  have side : g.side w ≤ 20 * g.resolution + 1 := g.side_eq_mod w ▸ Nat.mod_le _ _
  have inside : index < g.side w * g.side w := hi.trans_le (g.pointCount_le w)
  have row : index / g.side w < g.side w := Nat.div_lt_of_lt_mul inside
  have column : index % g.side w < g.side w := Nat.mod_lt _ (Nat.zero_lt_of_lt row)
  have half : g.segments w / 2 ≤ 10 * g.resolution := by omega
  exact hp.finiteSample p _ (within_latticeCoordinate g.positive hword (by omega) half)
    (within_latticeCoordinate g.positive hword (by omega) half)

/-- Whatever the values of an expression are, all entries of its surface are finite, and an angle
is a part of a turn. A resolution is a word of 32 bits. -/
theorem Platform.sweep_finite (hp : Platform) (w : Nat) (p : Parameters) (x : Expr Float)
    (hpos : 0 < p.resolution) (hword : p.resolution < 2 ^ 32) :
    ∃ s : Surface Float32,
      sweep w p x = (if Grid.Reservable w ⟨p.resolution, hpos⟩ then .ok s
        else .error .capacityOverflow) ∧
      (∀ a ∈ s.positions, a.isFinite = true) ∧
      ∀ c ∈ s.channels, c.isFinite = true ∧ (p.mode = .length → 0 ≤ c ∧ c < 1) := by
  refine ⟨_, sweep_eq hpos x, ?_⟩
  rw [sweepGrid_eq_ofSamples]
  have finite {index : Nat} (hi : index ∈ List.range _) :=
    hp.finiteSample_sampleAt w ⟨p.resolution, hpos⟩ hword p x (List.mem_range.mp hi)
  refine ⟨fun a ha => ?_, fun c hc => ?_⟩
  · rw [← Array.mem_toList_iff, Surface.positions_ofSamples] at ha
    simp only [List.mem_flatMap, List.mem_map] at ha
    obtain ⟨_, ⟨index, hi, rfl⟩, ha⟩ := ha
    simp only [List.mem_cons, List.not_mem_nil, or_false] at ha
    obtain rfl | rfl | rfl := ha
    · exact (finite hi).x
    · exact (finite hi).height
    · exact (finite hi).z
  · rw [← Array.mem_toList_iff, Surface.channels_ofSamples] at hc
    simp only [List.mem_map] at hc
    obtain ⟨_, ⟨index, hi, rfl⟩, rfl⟩ := hc
    exact ⟨(finite hi).channel, (finite hi).turn⟩

end Platform

/-- A library that is exact for the lengths and angles of real numbers, and for the logarithm of the
limit. -/
@[reducible] def axisLibrary : Elementary Float where
  pi := 3.141592653589793
  euler := 2.718281828459045
  sqrt := Float.sqrt
  cbrt := Float.cbrt
  exp := Float.exp
  log := Float.log
  log1p x := if x < 1e9 then 0 else 20.72326583794641
  sin := Float.sin
  cos := Float.cos
  sinh := Float.sinh
  cosh := Float.cosh
  atan2 _ x := if x < 0 then 3.141592653589793 else 0
  hypot x y := if x.abs < y.abs then y.abs else x.abs
  pow := Float.pow

@[reducible] def roundedStorage : Narrowing Float Float32 := ⟨toSingle⟩

theorem platform_axis : @Platform axisLibrary roundedStorage := by
  have leg {x : Float} (h : x.abs ≤ 1e9) : 0 ≤ x.abs ∧ x.abs ≤ 2e9 := by
    have fx := isFinite_of_abs_le rfl h
    have le := (float_le_iff (isFinite_abs fx) rfl).mp h
    rw [toRat_abs, toRat_limit, abs_le] at le
    exact Moderate.abs ⟨fx, by linarith, by linarith⟩
  have small {x : Float} (h : Moderate x) : |toRat x| ≤ 2 ^ 127 :=
    (abs_le.mpr ⟨h.ge, h.le⟩).trans (by norm_num)
  refine @Platform.mk axisLibrary roundedStorage rfl (fun x y hx hy => ?_) (fun y x _ _ => ?_)
    (fun x _ _ => ?_) (fun x low high => ?_) (fun x y _ _ _ _ le => ?_) toSingle_zero
  · simp only [Elementary.hypot]
    split_ifs
    · exact leg hy
    · exact leg hx
  · simp only [Elementary.atan2, Elementary.pi]
    split_ifs <;> decide
  · simp only [Elementary.log1p]
    split_ifs <;> decide
  · have h := moderate_iff.mpr ⟨low, high⟩
    exact (rounds_toSingle h.finite (small h)).finite
  · exact toSingle_mono le

/-- The surface of an expression that is undefined everywhere. -/
theorem sweep_finite_undefined : ∃ s, @sweep Float Float32 _ axisLibrary _ roundedStorage 64
      ⟨1, .length, true⟩ (.literal ⟨Scalar.undefined, 0⟩) = .ok s ∧
    (∀ a ∈ s.positions, a.isFinite = true) ∧
    ∀ c ∈ s.channels, c.isFinite = true ∧ (Mode.length = .length → 0 ≤ c ∧ c < 1) := by
  have room : Grid.Reservable 64 ⟨1, by decide⟩ := by decide
  obtain ⟨s, swept, finite⟩ := @Platform.sweep_finite axisLibrary roundedStorage platform_axis 64
    ⟨1, .length, true⟩ (.literal ⟨Scalar.undefined, 0⟩) (by decide) (by decide)
  exact ⟨s, swept.trans (if_pos room), finite⟩

end Argand.Plot
