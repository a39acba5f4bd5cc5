import Argand.Plot.Evaluate
import Argand.Proofs.MachineNumber
import Argand.Proofs.SweepSamples
import Mathlib.Data.Set.Function
import Mathlib.Order.Interval.Set.Basic

namespace Argand.Plot

open Machine

/-- The row and the column of a point, counted from the middle of the square. -/
def offset (resolution index : Nat) : Int × Int :=
  ((index / exactSide resolution : Nat) - 10 * resolution,
    (index % exactSide resolution : Nat) - 10 * resolution)

/-- The rows of the square, or its columns, counted from the middle. -/
def offsets (resolution : Nat) : Set Int := Set.Icc (-(10 * resolution)) (10 * resolution)

theorem mem_offsets {resolution k : Nat} :
    (k : Int) - 10 * resolution ∈ offsets resolution ↔ k < exactSide resolution := by
  simp only [offsets, exactSide, Set.mem_Icc]
  omega

theorem offset_mapsTo (resolution : Nat) :
    Set.MapsTo (offset resolution) (Set.Iio (exactSide resolution ^ 2))
      (offsets resolution ×ˢ offsets resolution) := by
  intro index h
  rw [Set.mem_Iio, Nat.pow_two] at h
  have pos : 0 < exactSide resolution := Nat.succ_pos _
  exact ⟨mem_offsets.mpr (Nat.div_lt_of_lt_mul h), mem_offsets.mpr (Nat.mod_lt _ pos)⟩

theorem offset_injective (resolution : Nat) : Function.Injective (offset resolution) := by
  intro i j h
  obtain ⟨row, column⟩ := Prod.mk.inj h
  have same : i / exactSide resolution = j / exactSide resolution := by omega
  have same' : i % exactSide resolution = j % exactSide resolution := by omega
  rw [← Nat.div_add_mod i (exactSide resolution), same, same', Nat.div_add_mod]

theorem offset_place {resolution column : Nat} (row : Nat) (h : column < exactSide resolution) :
    offset resolution (row * exactSide resolution + column) =
      ((row : Int) - 10 * resolution, (column : Int) - 10 * resolution) := by
  have pos : 0 < exactSide resolution := Nat.succ_pos _
  have quotient : (row * exactSide resolution + column) / exactSide resolution = row := by
    rw [Nat.mul_comm, Nat.mul_add_div pos, Nat.div_eq_of_lt h, Nat.add_zero]
  have remainder : (row * exactSide resolution + column) % exactSide resolution = column := by
    rw [Nat.mul_comm, Nat.mul_add_mod, Nat.mod_eq_of_lt h]
  simp only [offset, quotient, remainder]

theorem place_lt {resolution row column : Nat} (hr : row < exactSide resolution)
    (hc : column < exactSide resolution) :
    row * exactSide resolution + column < exactSide resolution ^ 2 := by
  calc row * exactSide resolution + column
      < row * exactSide resolution + exactSide resolution := Nat.add_lt_add_left hc _
    _ = (row + 1) * exactSide resolution := (Nat.succ_mul _ _).symm
    _ ≤ exactSide resolution * exactSide resolution := Nat.mul_le_mul_right _ hr
    _ = exactSide resolution ^ 2 := (Nat.pow_two _).symm

theorem offset_surjOn (resolution : Nat) :
    Set.SurjOn (offset resolution) (Set.Iio (exactSide resolution ^ 2))
      (offsets resolution ×ˢ offsets resolution) := by
  rintro ⟨a, b⟩ ⟨ha, hb⟩
  obtain ⟨row, hr⟩ : ∃ row : Nat, a = row - 10 * resolution :=
    ⟨(a + 10 * resolution).toNat, by have := ha.1; omega⟩
  obtain ⟨column, hc⟩ : ∃ column : Nat, b = column - 10 * resolution :=
    ⟨(b + 10 * resolution).toNat, by have := hb.1; omega⟩
  subst hr hc
  have hr := mem_offsets.mp ha
  have hc := mem_offsets.mp hb
  exact ⟨row * exactSide resolution + column, place_lt hr hc, offset_place row hc⟩

/-- Every place of the square has exactly one index. -/
theorem offset_bijOn (resolution : Nat) :
    Set.BijOn (offset resolution) (Set.Iio (exactSide resolution ^ 2))
      (offsets resolution ×ˢ offsets resolution) :=
  ⟨offset_mapsTo resolution, (offset_injective resolution).injOn, offset_surjOn resolution⟩

example : offset 1 220 = (0, 0) := rfl

/-- The point that is so many steps from the middle of the square. -/
def pointOfOffset (resolution : Nat) (o : Int × Int) : Complex Float :=
  ⟨Float.ofInt o.1 / Float.ofNat resolution, Float.ofInt o.2 / Float.ofNat resolution⟩

section Words

variable {w resolution : Nat}

/-- A resolution with points that can be counted in a word has half of the bits of a long one. -/
theorem resolution_lt (hw : w ≤ 64) (h : exactSide resolution ^ 2 < 2 ^ w) :
    resolution < 2 ^ 32 := by
  have square : exactSide resolution ^ 2 < (2 ^ 32) ^ 2 :=
    calc exactSide resolution ^ 2 < 2 ^ w := h
      _ ≤ 2 ^ 64 := Nat.pow_le_pow_right (by decide) hw
      _ = (2 ^ 32) ^ 2 := by rw [← Nat.pow_mul]
  have side := (Nat.pow_lt_pow_iff_left two_ne_zero).mp square
  rw [exactSide] at side
  omega

end Words

/-- The steps are counted exactly, so that only the division rounds. -/
theorem latticeCoordinate_eq {n k : Nat} (hn : n < 2 ^ 32) (hk : k ≤ 20 * n) :
    (floatOfNat k - floatOfNat (10 * n)) / floatOfNat n =
      Float.ofInt (k - 10 * n) / Float.ofNat n := by
  have difference := floatOfNat_sub (a := k) (b := 10 * n) (by omega) (by omega)
  rw [difference, floatOfNat_eq_ofNat (n := n) (by omega)]
  push_cast
  rfl

theorem point_eq_pointOfOffset {w : Nat} {g : Grid} (hw : w ≤ 64)
    (hword : exactSide g.resolution ^ 2 < 2 ^ w) {index : Nat}
    (hi : index < exactSide g.resolution ^ 2) :
    g.point w index = pointOfOffset g.resolution (offset g.resolution index) := by
  have hn := resolution_lt hw hword
  have fits := Grid.exactSide_lt hword
  have side : g.side w = exactSide g.resolution := Grid.side_eq fits
  have segments : g.segments w = 20 * g.resolution :=
    Grid.segments_eq ((Nat.lt_succ_self _).trans fits)
  have half : g.segments w / 2 = 10 * g.resolution := by omega
  obtain ⟨row, column⟩ := offset_mapsTo g.resolution hi
  have hr := Nat.le_of_lt_succ (mem_offsets.mp row)
  have hc := Nat.le_of_lt_succ (mem_offsets.mp column)
  rw [Grid.point, Grid.latticePoint, half, side]
  exact congrArg₂ Complex.mk (latticeCoordinate_eq hn hr) (latticeCoordinate_eq hn hc)

section Sweep

variable {S : Type} [Elementary Float] [Scalar S] [Narrowing Float S]

/-- The surface holds the entries of the points row by row, each once. -/
structure RowMajor (p : Parameters) (x : Expr Float) (s : Surface S) : Prop where
  positions_size : s.positions.size = 3 * exactSide p.resolution ^ 2
  channels_size : s.channels.size = exactSide p.resolution ^ 2
  /-- Every point of the lattice has one index. -/
  bijective : Set.BijOn (offset p.resolution) (Set.Iio (exactSide p.resolution ^ 2))
    (offsets p.resolution ×ˢ offsets p.resolution)
  entries : ∀ index < exactSide p.resolution ^ 2,
    let z := pointOfOffset p.resolution (offset p.resolution index)
    let parts := p.mode.split S (x.eval z).bound.1
    s.positions[3 * index]? = some (Narrowing.narrow z.re) ∧
    s.positions[3 * index + 1]? =
      some (Narrowing.narrow (if p.logHeight then compressHeight parts.1 else parts.1)) ∧
    s.positions[3 * index + 2]? = some (Narrowing.narrow z.im) ∧
    s.channels[index]? = some (Narrowing.narrow parts.2)
  singularCount_eq : s.singularCount =
    (List.range (exactSide p.resolution ^ 2)).countP fun index =>
      (x.eval (pointOfOffset p.resolution (offset p.resolution index))).bound.2.isSome

theorem rowMajor_ofSamples {w : Nat} {p : Parameters} {x : Expr Float} {g : Grid}
    (hg : g.resolution = p.resolution) (hw : w ≤ 64)
    (hword : exactSide g.resolution ^ 2 < 2 ^ w) :
    RowMajor p x (Surface.ofSamples
      ((List.range (exactSide p.resolution ^ 2)).map (sampleAt (S := S) w g p x))) := by
  have sample {index : Nat} (hi : index < exactSide p.resolution ^ 2) :
      sampleAt (S := S) w g p x index =
        sampleOfValue p (pointOfOffset p.resolution (offset p.resolution index))
          (x.eval (pointOfOffset p.resolution (offset p.resolution index))) := by
    rw [sampleAt, point_eq_pointOfOffset hw hword (by rwa [hg]), hg]
  refine ⟨?_, ?_, ?_, ?_, ?_⟩
  · rw [Surface.size_positions_ofSamples, List.length_map, List.length_range]
  · rw [Surface.size_channels_ofSamples, List.length_map, List.length_range]
  · exact offset_bijOn p.resolution
  · intro index hi
    have entry :
        ((List.range (exactSide p.resolution ^ 2)).map (sampleAt (S := S) w g p x))[index]? =
          some (sampleAt w g p x index) := by
      rw [List.getElem?_map, List.getElem?_range hi]
      rfl
    rw [sample hi] at entry
    exact ⟨Surface.getElem?_positions_ofSamples entry 0 (by decide),
      Surface.getElem?_positions_ofSamples entry 1 (by decide),
      Surface.getElem?_positions_ofSamples entry 2 (by decide),
      Surface.getElem?_channels_ofSamples entry⟩
  · rw [Surface.singularCount_ofSamples, List.countP_map]
    refine List.countP_congr fun index hi => ?_
    rw [Function.comp_apply, sample (List.mem_range.mp hi)]
    exact Iff.rfl

/-- Where the points can be counted, a sweep is the map over the points of the square, row by row,
unless the three numbers of each point are more than a buffer can hold: then no point is visited. -/
theorem sweep_rowMajor {w : Nat} (hw : w ≤ 64) (p : Parameters) (x : Expr Float)
    (hpos : 1 ≤ p.resolution) (hword : exactSide p.resolution ^ 2 < 2 ^ w) :
    (12 * exactSide p.resolution ^ 2 < 2 ^ (w - 1) →
      ∃ s : Surface S, sweep w p x = .ok s ∧ RowMajor p x s) ∧
    (2 ^ (w - 1) ≤ 12 * exactSide p.resolution ^ 2 →
      (sweep w p x : Except _ (Surface S)) = .error .capacityOverflow) := by
  have swept := sweep_eq_of_lt (S := S) hpos hword x
  have count : Grid.pointCount w ⟨p.resolution, hpos⟩ = exactSide p.resolution ^ 2 :=
    Grid.pointCount_eq hword
  constructor
  · intro room
    refine ⟨_, swept.trans (if_pos room), ?_⟩
    rw [sweepGrid_eq_ofSamples, count]
    exact rowMajor_ofSamples rfl hw hword
  · intro full
    exact swept.trans (if_neg (not_lt.mpr full))

end Sweep

/-- The inverse, with its pole in the middle, by length and angle. The words are short, and then
long. -/
theorem sweep_rowMajor_inverse :
    (∃ s, sweepMachine 32 ⟨1, .length, true⟩ (.binary .div (.literal 1) .unknown) = .ok s ∧
      RowMajor ⟨1, .length, true⟩ (.binary .div (.literal 1) .unknown) s) ∧
    ∃ s, sweepMachine 64 ⟨3, .length, true⟩ (.binary .div (.literal 1) .unknown) = .ok s ∧
      RowMajor ⟨3, .length, true⟩ (.binary .div (.literal 1) .unknown) s :=
  ⟨(sweep_rowMajor (by decide) ⟨1, .length, true⟩ (.binary .div (.literal 1) .unknown) (by decide)
    (by decide)).1 (by decide),
  (sweep_rowMajor (by decide) ⟨3, .length, true⟩ (.binary .div (.literal 1) .unknown) (by decide)
    (by decide)).1 (by decide)⟩

/-- The first resolution with points that can be counted in a long word, but not stored. -/
theorem sweep_rowMajor_overflow :
    1 ≤ 43835327 ∧ exactSide 43835327 ^ 2 < 2 ^ 64 ∧
      sweepMachine 64 ⟨43835327, .real, false⟩ .unknown = .error .capacityOverflow ∧
      ¬ ∃ s, sweepMachine 64 ⟨43835327, .real, false⟩ .unknown = .ok s ∧
        RowMajor ⟨43835327, .real, false⟩ .unknown s := by
  have overflow : ¬ Grid.Reservable 64 ⟨43835327, by decide⟩ := by decide
  have swept : sweepMachine 64 ⟨43835327, .real, false⟩ .unknown = .error .capacityOverflow :=
    sweep_eq_overflow (p := ⟨43835327, .real, false⟩) overflow .unknown
  have counted : exactSide 43835327 ^ 2 < 2 ^ 64 := by norm_num [exactSide]
  refine ⟨by decide, counted, swept, ?_⟩
  rintro ⟨s, returned, -⟩
  cases swept.symm.trans returned

end Argand.Plot
