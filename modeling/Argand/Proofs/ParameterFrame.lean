import Argand.Proofs.FiniteSurface
import Argand.Proofs.SurfaceEntries

namespace Argand.Plot

open Machine

section Sweep

variable {R S : Type} [Scalar R] [Elementary R] [Scalar S] [Narrowing R S]
  (w : Nat) (g : Grid) (p q : Parameters) (x : Expr R) (index : Nat)

theorem sampleAt_channel : (sampleAt w g p x index : Sample S).channel =
    Narrowing.narrow (p.mode.split S (x.eval (g.point w index)).bound.1).2 := rfl

theorem channels_sweepGrid_congr (h : p.mode = q.mode) :
    (sweepGrid (S := S) w g p x).channels = (sweepGrid w g q x).channels := by
  rw [← Array.toList_inj, sweepGrid_eq_ofSamples, sweepGrid_eq_ofSamples,
    Surface.channels_ofSamples, Surface.channels_ofSamples, List.map_map, List.map_map]
  refine List.map_congr_left fun i _ => ?_
  rw [Function.comp_apply, Function.comp_apply, sampleAt_channel, sampleAt_channel, h]

end Sweep

/-- What the order of heights takes for granted of the logarithm and of the conversion to single
precision. It is meant for a library with a monotone logarithm: `logOfOnePlus` is none. -/
structure OrderPreserving [Elementary Float] [Narrowing Float Float32] : Prop where
  log1p_nonneg : ∀ x : Float, 0 ≤ x → 0 ≤ Elementary.log1p x
  log1p_mono : ∀ x y : Float, 0 ≤ x → x ≤ y → Elementary.log1p x ≤ Elementary.log1p y
  narrow_mono : ∀ x y : Float, x ≤ y → (Narrowing.narrow x : Float32) ≤ Narrowing.narrow y
  narrow_nan : ∀ x : Float, x.isNaN = true → (Narrowing.narrow x : Float32).isNaN = true

section Heights

variable [Elementary Float] {a b : Float}

theorem compressHeight_of_neg (h : a < 0) : compressHeight a = -Elementary.log1p (-a) := by
  unfold compressHeight
  split
  next eq => exact absurd eq (Bool.eq_false_iff.mp (float_bne_of_lt h).1)
  next => exact congrArg (fun y : Float => -Elementary.log1p y) (float_abs_of_neg h)

theorem compressHeight_of_pos (h : 0 < a) : compressHeight a = Elementary.log1p a := by
  unfold compressHeight
  split
  next eq => exact absurd eq (Bool.eq_false_iff.mp (float_bne_of_lt h).2)
  next =>
    split
    next neg => exact absurd neg (float_not_lt_of_lt h)
    next => exact congrArg Elementary.log1p (float_abs_of_pos h)

theorem compressHeight_of_beq_zero (h : (a == 0) = true) : compressHeight a = 0 :=
  if_pos h

variable [Narrowing Float Float32]

theorem OrderPreserving.lt_of_narrow_lt (hp : OrderPreserving)
    (h : (Narrowing.narrow a : Float32) < Narrowing.narrow b) : a < b := by
  obtain ⟨narrowed, narrowed'⟩ := single_isNaN_of_lt h
  have number : a.isNaN = false :=
    Bool.eq_false_iff.mpr fun nan => Bool.eq_false_iff.mp narrowed (hp.narrow_nan a nan)
  have number' : b.isNaN = false :=
    Bool.eq_false_iff.mpr fun nan => Bool.eq_false_iff.mp narrowed' (hp.narrow_nan b nan)
  by_contra above
  exact single_not_lt_of_le (hp.narrow_mono b a (float_le_of_not_lt number number' above)) h

theorem OrderPreserving.compressHeight_le_zero (hp : OrderPreserving) (h : a ≤ 0) :
    compressHeight a ≤ 0 := by
  rcases float_lt_or_beq h with neg | zero
  · rw [compressHeight_of_neg neg]
    exact float_neg_le_zero (hp.log1p_nonneg _ (float_zero_le_neg h))
  · rw [compressHeight_of_beq_zero zero]
    decide

theorem OrderPreserving.zero_le_compressHeight (hp : OrderPreserving) (h : 0 ≤ a) :
    0 ≤ compressHeight a := by
  rcases float_lt_or_beq h with pos | zero
  · rw [compressHeight_of_pos pos]
    exact hp.log1p_nonneg a h
  · rw [compressHeight_of_beq_zero (float_beq_swap zero)]
    decide

/-- The logarithm of a height that is signed keeps the order of all heights. -/
theorem OrderPreserving.compressHeight_mono (hp : OrderPreserving) (h : a < b) :
    compressHeight a ≤ compressHeight b := by
  rcases float_lt_cases h with ⟨ha, hb⟩ | ⟨ha, hb⟩ | ⟨ha, hb⟩
  · rw [compressHeight_of_neg ha, compressHeight_of_neg hb]
    have order := float_neg_le_neg (float_le_of_lt h)
    have nonneg := float_zero_le_neg (float_le_of_lt hb)
    exact float_neg_le_neg (hp.log1p_mono _ _ nonneg order)
  · exact float_le_of_le_zero (hp.compressHeight_le_zero ha) (hp.zero_le_compressHeight hb)
  · rw [compressHeight_of_pos ha, compressHeight_of_pos hb]
    exact hp.log1p_mono a b (float_le_of_lt ha) (float_le_of_lt h)

/-- Stored heights keep their order when each is replaced by its logarithm. -/
theorem OrderPreserving.narrow_compressHeight_mono (hp : OrderPreserving)
    (h : (Narrowing.narrow a : Float32) < Narrowing.narrow b) :
    (Narrowing.narrow (compressHeight a) : Float32) ≤ Narrowing.narrow (compressHeight b) :=
  hp.narrow_mono _ _ (hp.compressHeight_mono (hp.lt_of_narrow_lt h))

/-- The mode and the logarithm change nothing but the heights and the channels, and the logarithm no
channel. What is the height in one of the first two modes is the channel in the other. Where the
library keeps the order, so do the heights. -/
theorem sweep_frame (w : Nat) (x : Expr Float) {resolution : Nat} (hpos : 1 ≤ resolution) :
    ∃ run : Mode → Bool → Surface Float32,
      (∀ mode log, sweep w ⟨resolution, mode, log⟩ x =
          (if Grid.Reservable w ⟨resolution, hpos⟩ then .ok (run mode log)
          else .error .capacityOverflow) ∧
        ∀ i < Grid.pointCount w ⟨resolution, hpos⟩, ∃ e, (run mode log).Holds i e) ∧
      (∀ mode mode' log log', (run mode log).singularCount = (run mode' log').singularCount ∧
        ∀ i, (run mode log).x? i = (run mode' log').x? i ∧
          (run mode log).z? i = (run mode' log').z? i) ∧
      (∀ mode log log', (run mode log).channels = (run mode log').channels) ∧
      (∀ log i, (run .real false).height? i = (run .imaginary log).channel? i ∧
        (run .imaginary false).height? i = (run .real log).channel? i) ∧
      (OrderPreserving → ∀ mode i j h₁ h₂, (run mode false).height? i = some h₁ →
        (run mode false).height? j = some h₂ → h₁ < h₂ →
        ∃ l₁ l₂, (run mode true).height? i = some l₁ ∧ (run mode true).height? j = some l₂ ∧
          l₁ ≤ l₂) := by
  let g : Grid := ⟨resolution, hpos⟩
  have result (mode : Mode) (log : Bool) : sweep w ⟨resolution, mode, log⟩ x =
      (if g.Reservable w then .ok (sweepGrid (S := Float32) w g ⟨resolution, mode, log⟩ x)
      else .error .capacityOverflow) ∧
      ∀ i < g.pointCount w,
        ∃ e, (sweepGrid (S := Float32) w g ⟨resolution, mode, log⟩ x).Holds i e :=
    ⟨@sweep_eq _ Float32 _ _ _ _ w ⟨resolution, mode, log⟩ hpos x,
      fun i hi => ⟨_, holds_sweepGrid w g _ x i hi⟩⟩
  refine ⟨_, result, fun mode mode' log log' => ⟨?_, fun i => ⟨?_, ?_⟩⟩, fun mode log log' => ?_,
    fun log i => ⟨?_, ?_⟩, fun hp mode i j h₁ h₂ first second order => ?_⟩
  · rw [singularCount_sweepGrid, singularCount_sweepGrid]
  · rw [x?_sweepGrid, x?_sweepGrid]
    rfl
  · rw [z?_sweepGrid, z?_sweepGrid]
    rfl
  · exact channels_sweepGrid_congr w g _ _ x rfl
  · rw [height?_sweepGrid, channel?_sweepGrid]
    rfl
  · rw [height?_sweepGrid, channel?_sweepGrid]
    rfl
  · rw [height?_sweepGrid, Option.ite_none_right_eq_some] at first second
    obtain ⟨hi, first⟩ := first
    obtain ⟨hj, second⟩ := second
    cases first
    cases second
    rw [height?_sweepGrid, height?_sweepGrid, if_pos hi, if_pos hj]
    exact ⟨_, _, rfl, rfl, hp.narrow_compressHeight_mono order⟩

end Heights

/-- A library in which the logarithm is that of numbers too small for its curve to be seen. -/
@[reducible] def linearLibrary : Elementary Float :=
  { axisLibrary with log1p := fun x => x }

theorem orderPreserving_linear : @OrderPreserving linearLibrary roundedStorage :=
  @OrderPreserving.mk linearLibrary roundedStorage (fun _ h => h) (fun _ _ _ h => h)
    (fun _ _ h => toSingle_mono h) (fun x h => (isNaN_toSingle x).trans h)

/-- A thin slope. -/
def slope : Expr Float := .binary .mul (.literal ⟨1e-30, 0⟩) .unknown

/-- The heights rise from corner to corner, and the real parts are not the imaginary ones. -/
theorem sweep_frame_slope : ∃ run : Mode → Bool → Surface Float32,
    (∀ mode log, @sweep Float Float32 _ linearLibrary _ roundedStorage 64 ⟨1, mode, log⟩ slope =
      .ok (run mode log)) ∧
    (run .real false).channel? 20 ≠ (run .imaginary false).channel? 20 ∧
    ∃ h₁ h₂ l₁ l₂, (run .real false).height? 0 = some h₁ ∧
      (run .real false).height? 440 = some h₂ ∧ h₁ < h₂ ∧
      (run .real true).height? 0 = some l₁ ∧ (run .real true).height? 440 = some l₂ ∧ l₁ ≤ l₂ := by
  let _ := linearLibrary
  let _ := roundedStorage
  obtain ⟨run, result, -, -, -, order⟩ := sweep_frame 64 slope Nat.one_pos
  have room : Grid.Reservable 64 ⟨1, Nat.one_pos⟩ := by decide
  have swept (mode : Mode) (log : Bool) : sweep 64 ⟨1, mode, log⟩ slope = .ok (run mode log) :=
    (result mode log).1.trans (if_pos room)
  have grid (mode : Mode) (log : Bool) : run mode log =
      sweepGrid 64 ⟨1, by decide⟩ ⟨1, mode, log⟩ slope := by
    have ok := @sweep_eq_ok _ Float32 _ _ _ _ 64 ⟨1, mode, log⟩ Nat.one_pos room slope
    exact Except.ok.inj ((swept mode log).symm.trans ok)
  have low : (run .real false).height? 0 = some (toSingle (-1e-29)) := by
    rw [grid, height?_sweepGrid]
    decide +kernel
  have high : (run .real false).height? 440 = some (toSingle 1e-29) := by
    rw [grid, height?_sweepGrid]
    decide +kernel
  have rise : toSingle (-1e-29) < toSingle 1e-29 := by
    decide +kernel
  obtain ⟨l₁, l₂, low', high', le⟩ := order orderPreserving_linear .real 0 440 _ _ low high rise
  refine ⟨run, swept, ?_, _, _, l₁, l₂, low, high, rise, low', high', le⟩
  rw [grid, grid, channel?_sweepGrid, channel?_sweepGrid]
  decide +kernel

end Argand.Plot
