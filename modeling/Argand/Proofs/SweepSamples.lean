import Argand.Plot.Surface
import Mathlib.Tactic.Ring

namespace Argand.Plot

section Blocks

variable {α β : Type} {f : α → List β} {n : Nat} {xs : List α}

theorem length_flatMap_of_length (hf : ∀ x, (f x).length = n) (xs : List α) :
    (xs.flatMap f).length = xs.length * n := by
  induction xs with
  | nil => simp
  | cons x xs ih =>
    rw [List.flatMap_cons, List.length_append, hf, ih, List.length_cons, Nat.succ_mul, Nat.add_comm]

theorem getElem?_flatMap_of_length (hf : ∀ x, (f x).length = n) {i j : Nat} {x : α}
    (hx : xs[i]? = some x) (hj : j < n) : (xs.flatMap f)[i * n + j]? = (f x)[j]? := by
  induction xs generalizing i with
  | nil => cases hx
  | cons w xs ih =>
    rw [List.flatMap_cons]
    cases i with
    | zero =>
      cases hx
      rw [Nat.zero_mul, Nat.zero_add, List.getElem?_append_left (by rw [hf]; exact hj)]
    | succ i =>
      have place : (i + 1) * n + j - (f w).length = i * n + j := by
        rw [hf, Nat.succ_mul]
        omega
      rw [List.getElem?_append_right (by rw [hf, Nat.succ_mul]; omega), place]
      exact ih hx

end Blocks

section Samples

variable {S : Type}

def Surface.ofSamples (samples : List (Sample S)) : Surface S :=
  samples.foldl Surface.push Surface.empty

theorem Surface.foldl_push_positions (samples : List (Sample S)) (s : Surface S) :
    (samples.foldl Surface.push s).positions.toList =
      s.positions.toList ++ samples.flatMap fun p => [p.x, p.height, p.z] := by
  induction samples generalizing s with
  | nil => simp
  | cons p samples ih => simp [ih, Surface.push]

theorem Surface.foldl_push_channels (samples : List (Sample S)) (s : Surface S) :
    (samples.foldl Surface.push s).channels.toList =
      s.channels.toList ++ samples.map (·.channel) := by
  induction samples generalizing s with
  | nil => simp
  | cons p samples ih => simp [ih, Surface.push]

@[simp] theorem Surface.positions_ofSamples (samples : List (Sample S)) :
    (Surface.ofSamples samples).positions.toList =
      samples.flatMap fun p => [p.x, p.height, p.z] := by
  simp [Surface.ofSamples, Surface.foldl_push_positions, Surface.empty]

@[simp] theorem Surface.channels_ofSamples (samples : List (Sample S)) :
    (Surface.ofSamples samples).channels.toList = samples.map (·.channel) := by
  simp [Surface.ofSamples, Surface.foldl_push_channels, Surface.empty]

theorem Surface.size_channels_ofSamples (samples : List (Sample S)) :
    (Surface.ofSamples samples).channels.size = samples.length := by
  rw [← Array.length_toList, Surface.channels_ofSamples, List.length_map]

theorem Surface.size_positions_ofSamples (samples : List (Sample S)) :
    (Surface.ofSamples samples).positions.size = 3 * samples.length := by
  rw [← Array.length_toList, Surface.positions_ofSamples, Nat.mul_comm]
  exact length_flatMap_of_length (fun _ => by rfl) samples

theorem Surface.getElem?_positions_ofSamples {samples : List (Sample S)} {index : Nat}
    {p : Sample S} (h : samples[index]? = some p) (part : Nat) (hp : part < 3) :
    (Surface.ofSamples samples).positions[3 * index + part]? = [p.x, p.height, p.z][part]? := by
  rw [← Array.getElem?_toList, Surface.positions_ofSamples, Nat.mul_comm]
  exact getElem?_flatMap_of_length (fun _ => by rfl) h hp

theorem Surface.getElem?_channels_ofSamples {samples : List (Sample S)} {index : Nat}
    {p : Sample S} (h : samples[index]? = some p) :
    (Surface.ofSamples samples).channels[index]? = some p.channel := by
  rw [← Array.getElem?_toList, Surface.channels_ofSamples, List.getElem?_map, h]
  rfl

theorem Surface.singularCount_ofSamples (samples : List (Sample S)) :
    (Surface.ofSamples samples).singularCount = samples.countP (·.singular) := by
  have count (s : Surface S) : (samples.foldl Surface.push s).singularCount =
      s.singularCount + samples.countP (·.singular) := by
    induction samples generalizing s with
    | nil => rfl
    | cons p samples ih =>
      rw [List.foldl_cons, ih, List.countP_cons]
      cases hp : p.singular
      · simp [Surface.push, hp]
      · simp [Surface.push, hp, Nat.add_assoc, Nat.add_comm]
  exact (count Surface.empty).trans (Nat.zero_add _)

end Samples

/-- The points of a side, if no size wraps. -/
def exactSide (resolution : Nat) : Nat := 20 * resolution + 1

namespace Grid

theorem ofResolution_of_zero {resolution : Nat} (h : resolution = 0) :
    ofResolution resolution = .error .zeroResolution :=
  dif_neg (Nat.not_lt.mpr h.le)

theorem ofResolution_of_pos {resolution : Nat} (h : 0 < resolution) :
    ofResolution resolution = .ok ⟨resolution, h⟩ :=
  dif_pos h

section wrapped

variable (w : Nat) (g : Grid)

/-! Every size is what a word holds of the exact one. -/

theorem segmentsIn_eq_ofNat : g.segmentsIn w = BitVec.ofNat w (20 * g.resolution) := by
  rw [segmentsIn, show (2 : BitVec w) = BitVec.ofNat w 2 from rfl, ← BitVec.ofNat_mul,
    ← BitVec.ofNat_mul, halfExtent]

theorem sideIn_eq_ofNat : g.sideIn w = BitVec.ofNat w (exactSide g.resolution) := by
  rw [sideIn, segmentsIn_eq_ofNat, exactSide, BitVec.ofNat_add]
  rfl

theorem pointCountIn_eq_ofNat :
    g.pointCountIn w = BitVec.ofNat w (exactSide g.resolution ^ 2) := by
  rw [pointCountIn, sideIn_eq_ofNat, ← BitVec.ofNat_mul, Nat.pow_two]

theorem segments_eq_mod : g.segments w = 20 * g.resolution % 2 ^ w := by
  rw [segments, segmentsIn_eq_ofNat, BitVec.toNat_ofNat]

theorem side_eq_mod : g.side w = exactSide g.resolution % 2 ^ w := by
  rw [side, sideIn_eq_ofNat, BitVec.toNat_ofNat]

theorem pointCount_eq_mod : g.pointCount w = exactSide g.resolution ^ 2 % 2 ^ w := by
  rw [pointCount, pointCountIn_eq_ofNat, BitVec.toNat_ofNat]

theorem positionCount_eq_mod : g.positionCount w = 3 * g.pointCount w % 2 ^ w := by
  rw [positionCount, positionCountIn, BitVec.toNat_mul, BitVec.ofNat_eq_ofNat, BitVec.toNat_ofNat,
    Nat.mod_mul_mod, pointCount]

theorem two_pow_pred_le : 2 ^ (w - 1) ≤ 2 ^ w := Nat.pow_le_pow_right (by decide) (Nat.sub_le w 1)

/-- Both buffers can be reserved if the bytes of the larger one can be counted: then the number of
stored numbers has not wrapped. -/
theorem reservable_iff : g.Reservable w ↔ 12 * g.pointCount w < 2 ^ (w - 1) := by
  have pos : 0 < 2 ^ (w - 1) := Nat.two_pow_pos _
  have le := two_pow_pred_le w
  have unwrapped (h : 4 * g.pointCount w < 2 ^ (w - 1)) :
      g.positionCount w = 3 * g.pointCount w := by
    rw [positionCount_eq_mod]
    exact Nat.mod_eq_of_lt (by omega)
  simp only [Reservable, numberSize, maxBufferSize, BitVec.toNat_intMax]
  constructor
  · rintro ⟨positions, channels⟩
    rw [unwrapped (by omega)] at positions
    omega
  · intro h
    rw [unwrapped (by omega)]
    omega

end wrapped

variable {w : Nat} {g : Grid}

theorem exactSide_lt {resolution : Nat} (h : exactSide resolution ^ 2 < 2 ^ w) :
    exactSide resolution < 2 ^ w :=
  Nat.lt_of_le_of_lt (Nat.le_self_pow (by decide) _) h

/-- A number of points that can be stored does not wrap. -/
theorem lt_two_pow_of_buffer {count : Nat} (h : 12 * count < 2 ^ (w - 1)) : count < 2 ^ w := by
  have le := two_pow_pred_le w
  omega

theorem segments_eq (h : 20 * g.resolution < 2 ^ w) : g.segments w = 20 * g.resolution := by
  rw [segments_eq_mod, Nat.mod_eq_of_lt h]

theorem side_eq (h : exactSide g.resolution < 2 ^ w) : g.side w = exactSide g.resolution := by
  rw [side_eq_mod, Nat.mod_eq_of_lt h]

theorem pointCount_eq (h : exactSide g.resolution ^ 2 < 2 ^ w) :
    g.pointCount w = exactSide g.resolution ^ 2 := by
  rw [pointCount_eq_mod, Nat.mod_eq_of_lt h]

theorem point_eq_of_lt {R : Type} [Scalar R] {w' : Nat} (h : exactSide g.resolution < 2 ^ w)
    (h' : exactSide g.resolution < 2 ^ w') : g.point (R := R) w = g.point w' := by
  funext index
  rw [point, point, side_eq h, side_eq h', segments_eq (Nat.lt_of_succ_lt h),
    segments_eq (Nat.lt_of_succ_lt h')]

/-- The number of points is never above that of the wrapped sides. -/
theorem pointCount_le (w : Nat) (g : Grid) : g.pointCount w ≤ g.side w * g.side w := by
  rw [pointCount, pointCountIn, BitVec.toNat_mul, side]
  exact Nat.mod_le _ _

/-- Where the number of points does not wrap, the exact bytes of the larger buffer count. -/
theorem reservable_iff_of_lt (h : exactSide g.resolution ^ 2 < 2 ^ w) :
    g.Reservable w ↔ 12 * exactSide g.resolution ^ 2 < 2 ^ (w - 1) := by
  rw [reservable_iff, pointCount_eq h]

theorem reservable_of_buffer (h : 12 * exactSide g.resolution ^ 2 < 2 ^ (w - 1)) :
    g.Reservable w :=
  (reservable_iff_of_lt (lt_two_pow_of_buffer h)).mpr h

end Grid

section Sweep

variable {R S : Type} [Scalar R] [Elementary R] [Scalar S] [Narrowing R S]

def sampleAt (w : Nat) (g : Grid) (p : Parameters) (x : Expr R) (index : Nat) : Sample S :=
  sampleOfValue p (g.point w index) (x.eval (g.point w index))

/-- A sweep visits the points in the order of their indices. -/
theorem sweepGrid_eq_ofSamples (w : Nat) (g : Grid) (p : Parameters) (x : Expr R) :
    sweepGrid w g p x =
      Surface.ofSamples ((List.range (g.pointCount w)).map (sampleAt (S := S) w g p x)) := by
  have fold (n : Nat) : n.fold (fun index _ s => s.push (sampleAt (S := S) w g p x index))
      Surface.empty = Surface.ofSamples ((List.range n).map (sampleAt w g p x)) := by
    induction n with
    | zero => rfl
    | succ n ih => simp [ih, Surface.ofSamples, List.range_succ]
  exact fold (g.pointCount w)

theorem size_channels_sweepGrid (w : Nat) (g : Grid) (p : Parameters) (x : Expr R) :
    (sweepGrid (S := S) w g p x).channels.size = g.pointCount w := by
  rw [sweepGrid_eq_ofSamples, Surface.size_channels_ofSamples, List.length_map, List.length_range]

theorem size_positions_sweepGrid (w : Nat) (g : Grid) (p : Parameters) (x : Expr R) :
    (sweepGrid (S := S) w g p x).positions.size = 3 * g.pointCount w := by
  rw [sweepGrid_eq_ofSamples, Surface.size_positions_ofSamples, List.length_map, List.length_range]

variable {w : Nat} {p : Parameters}

/-- With subdivisions a sweep fails only if its buffers cannot be reserved. -/
theorem sweep_eq (h : 0 < p.resolution) (x : Expr R) : sweep w p x =
    if Grid.Reservable w ⟨p.resolution, h⟩ then .ok (sweepGrid (S := S) w ⟨p.resolution, h⟩ p x)
    else .error .capacityOverflow := by
  rw [sweep, Grid.ofResolution_of_pos h]

theorem sweep_eq_ok {h : 0 < p.resolution} (hr : Grid.Reservable w ⟨p.resolution, h⟩)
    (x : Expr R) : sweep w p x = .ok (sweepGrid (S := S) w ⟨p.resolution, h⟩ p x) := by
  rw [sweep_eq h, if_pos hr]

theorem sweep_eq_overflow {h : 0 < p.resolution} (hr : ¬ Grid.Reservable w ⟨p.resolution, h⟩)
    (x : Expr R) : (sweep w p x : Except _ (Surface S)) = .error .capacityOverflow := by
  rw [sweep_eq h, if_neg hr]

theorem sweep_eq_of_lt (h : 0 < p.resolution) (hword : exactSide p.resolution ^ 2 < 2 ^ w)
    (x : Expr R) : sweep w p x =
      if 12 * exactSide p.resolution ^ 2 < 2 ^ (w - 1) then
        .ok (sweepGrid (S := S) w ⟨p.resolution, h⟩ p x)
      else .error .capacityOverflow := by
  simp only [← Grid.reservable_iff_of_lt (g := ⟨p.resolution, h⟩) hword]
  exact sweep_eq h x

theorem sweepGrid_eq_of_lt {w' : Nat} {g : Grid} (h : exactSide g.resolution ^ 2 < 2 ^ w)
    (h' : exactSide g.resolution ^ 2 < 2 ^ w') (x : Expr R) :
    sweepGrid (S := S) w g p x = sweepGrid w' g p x := by
  have samples : sampleAt (S := S) w g p x = sampleAt w' g p x := by
    funext index
    rw [sampleAt, sampleAt, Grid.point_eq_of_lt (Grid.exactSide_lt h) (Grid.exactSide_lt h')]
  rw [sweepGrid_eq_ofSamples, sweepGrid_eq_ofSamples, samples, Grid.pointCount_eq h,
    Grid.pointCount_eq h']

/-- What can be swept in short words is swept alike in longer ones. -/
theorem sweep_eq_of_le {w' : Nat} (hw : w ≤ w')
    (h : 12 * exactSide p.resolution ^ 2 < 2 ^ (w - 1)) (x : Expr R) :
    (sweep w' p x : Except _ (Surface S)) = sweep w p x := by
  rcases Nat.eq_zero_or_pos p.resolution with zero | pos
  · rw [sweep, sweep, Grid.ofResolution_of_zero zero]
  · have h' : 12 * exactSide p.resolution ^ 2 < 2 ^ (w' - 1) :=
      Nat.lt_of_lt_of_le h (Nat.pow_le_pow_right (by decide) (Nat.sub_le_sub_right hw 1))
    have room : Grid.Reservable w ⟨p.resolution, pos⟩ := Grid.reservable_of_buffer h
    have room' : Grid.Reservable w' ⟨p.resolution, pos⟩ := Grid.reservable_of_buffer h'
    rw [sweep_eq_ok room', sweep_eq_ok room,
      sweepGrid_eq_of_lt (Grid.lt_two_pow_of_buffer h') (Grid.lt_two_pow_of_buffer h)]

end Sweep

end Argand.Plot
