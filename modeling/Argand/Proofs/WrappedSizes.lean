import Argand.Proofs.RowMajorSweep

namespace Argand.Plot

namespace Grid

variable {w : Nat} {g : Grid}

/-- Each size keeps what a word of `w` bits holds of it. -/
structure Wrapped (w : Nat) (g : Grid) : Prop where
  segments : g.segments w = 20 * g.resolution % 2 ^ w
  side : g.side w = exactSide g.resolution % 2 ^ w
  pointCount : g.pointCount w = exactSide g.resolution ^ 2 % 2 ^ w

theorem wrapped (w : Nat) (g : Grid) : Wrapped w g :=
  ⟨segments_eq_mod w g, side_eq_mod w g, pointCount_eq_mod w g⟩

theorem wrapped_eq_iff (w a : Nat) : a % 2 ^ w = a ↔ a < 2 ^ w :=
  Nat.mod_eq_iff_lt (Nat.two_pow_pos w).ne'

theorem segments_exact_iff (w : Nat) (g : Grid) :
    g.segments w = 20 * g.resolution ↔ 20 * g.resolution < 2 ^ w := by
  rw [segments_eq_mod, wrapped_eq_iff]

theorem side_exact_iff (w : Nat) (g : Grid) :
    g.side w = exactSide g.resolution ↔ exactSide g.resolution < 2 ^ w := by
  rw [side_eq_mod, wrapped_eq_iff]

/-- A square fits into a word if its root fits into half of one. -/
theorem pointCount_exact_iff (k : Nat) (g : Grid) :
    g.pointCount (2 * k) = exactSide g.resolution ^ 2 ↔ exactSide g.resolution < 2 ^ k := by
  rw [pointCount_eq_mod, wrapped_eq_iff, Nat.mul_comm, Nat.pow_mul,
    Nat.pow_lt_pow_iff_left two_ne_zero]

/-- The sizes that are exact in words of 64 bits: those of a side always, the number of points up to
a resolution. -/
structure ExactInLongWords (g : Grid) : Prop where
  segments : g.segments 64 = 20 * g.resolution
  side : g.side 64 = exactSide g.resolution
  pointCount_iff : g.pointCount 64 = exactSide g.resolution ^ 2 ↔ g.resolution ≤ 214748364

/-- In words of 32 bits each size is exact up to a resolution only. -/
structure ExactInShortWords (g : Grid) : Prop where
  segments_iff : g.segments 32 = 20 * g.resolution ↔ g.resolution ≤ 214748364
  side_iff : g.side 32 = exactSide g.resolution ↔ g.resolution ≤ 214748364
  pointCount_iff : g.pointCount 32 = exactSide g.resolution ^ 2 ↔ g.resolution ≤ 3276

theorem exactInLongWords (word : g.resolution < 2 ^ 32) : ExactInLongWords g where
  segments := (segments_exact_iff 64 g).mpr (by omega)
  side := (side_exact_iff 64 g).mpr (by rw [exactSide]; omega)
  pointCount_iff := by
    rw [pointCount_exact_iff 32, exactSide]
    omega

theorem exactInShortWords (g : Grid) : ExactInShortWords g where
  segments_iff := by
    rw [segments_exact_iff]
    omega
  side_iff := by
    rw [side_exact_iff, exactSide]
    omega
  pointCount_iff := by
    rw [pointCount_exact_iff 16, exactSide]
    omega

end Grid

section Outcomes

variable {S : Type} {w count : Nat}

/-- What becomes of a sweep over `count` points in words of `w` bits. -/
structure Swept (w count : Nat) (r : Except (Failure ConfigurationError) (Surface S)) : Prop where
  sizes : ∀ s, r = .ok s →
    s.channels.size = count % 2 ^ w ∧ s.positions.size = 3 * (count % 2 ^ w)
  returned_iff : (∃ s, r = .ok s) ↔ 12 * (count % 2 ^ w) < 2 ^ (w - 1)
  overflow_iff : r = .error .capacityOverflow ↔ 2 ^ (w - 1) ≤ 12 * (count % 2 ^ w)
  full_iff : (∃ s, r = .ok s ∧ s.channels.size = count) ↔ 12 * count < 2 ^ (w - 1)
  /-- Nothing but its size tells such a surface from a full one. -/
  truncated_iff : (∃ s, r = .ok s ∧ s.channels.size < count) ↔
    2 ^ w ≤ count ∧ 12 * (count % 2 ^ w) < 2 ^ (w - 1)

theorem full_iff_of_room (room : 12 * (count % 2 ^ w) < 2 ^ (w - 1)) :
    count % 2 ^ w = count ↔ 12 * count < 2 ^ (w - 1) := by
  constructor
  · intro whole
    rwa [whole] at room
  · intro h
    exact Nat.mod_eq_of_lt (Grid.lt_two_pow_of_buffer h)

theorem swept_ok {s : Surface S} (channels : s.channels.size = count % 2 ^ w)
    (positions : s.positions.size = 3 * (count % 2 ^ w))
    (room : 12 * (count % 2 ^ w) < 2 ^ (w - 1)) : Swept w count (.ok s) where
  sizes := by
    rintro t ⟨⟩
    exact ⟨channels, positions⟩
  returned_iff := iff_of_true ⟨s, rfl⟩ room
  overflow_iff := iff_of_false (fun h => by cases h) (not_le.mpr room)
  full_iff := by
    rw [← full_iff_of_room room]
    constructor
    · rintro ⟨t, ⟨⟩, whole⟩
      exact channels.symm.trans whole
    · intro whole
      exact ⟨s, rfl, channels.trans whole⟩
  truncated_iff := by
    have less : count % 2 ^ w < count ↔ 2 ^ w ≤ count := by
      rw [← not_lt, ← Grid.wrapped_eq_iff]
      exact (Nat.mod_le _ _).lt_iff_ne
    constructor
    · rintro ⟨t, ⟨⟩, part⟩
      exact ⟨less.mp (channels ▸ part), room⟩
    · rintro ⟨long, -⟩
      exact ⟨s, rfl, channels ▸ less.mpr long⟩

theorem swept_overflow (full : 2 ^ (w - 1) ≤ 12 * (count % 2 ^ w)) :
    Swept (S := S) w count (.error .capacityOverflow) where
  sizes := by
    rintro s ⟨⟩
  returned_iff := iff_of_false (by rintro ⟨s, ⟨⟩⟩) (not_lt.mpr full)
  overflow_iff := iff_of_true rfl full
  full_iff := by
    refine iff_of_false (by rintro ⟨s, ⟨⟩, -⟩) fun h => ?_
    rw [Nat.mod_eq_of_lt (Grid.lt_two_pow_of_buffer h)] at full
    exact absurd h (not_lt.mpr full)
  truncated_iff := iff_of_false (by rintro ⟨s, ⟨⟩, -⟩) fun h => absurd h.2 (not_lt.mpr full)

/-- A bound on the bytes of the points is one on the side. -/
theorem buffer_lt_iff {side bound : Nat} (root : Nat) (inside : 12 * root ^ 2 < bound)
    (outside : bound ≤ 12 * (root + 1) ^ 2) : 12 * side ^ 2 < bound ↔ side ≤ root := by
  constructor
  · intro h
    by_contra above
    have := Nat.pow_le_pow_left (Nat.succ_le_of_lt (not_le.mp above)) 2
    rw [Nat.succ_eq_add_one] at this
    omega
  · intro h
    have := Nat.pow_le_pow_left h 2
    omega

/-- The resolutions with a surface that can be stored where words are short. -/
theorem short_buffer_lt_iff {resolution : Nat} :
    12 * exactSide resolution ^ 2 < 2 ^ (32 - 1) ↔ resolution ≤ 668 := by
  rw [buffer_lt_iff 13377 (by norm_num) (by norm_num), exactSide]
  omega

theorem long_buffer_lt_iff {resolution : Nat} :
    12 * exactSide resolution ^ 2 < 2 ^ (64 - 1) ↔ resolution ≤ 43835326 := by
  rw [buffer_lt_iff 876706528 (by norm_num) (by norm_num), exactSide]
  omega

end Outcomes

section Sweep

variable {R S : Type} [Scalar R] [Elementary R] [Scalar S] [Narrowing R S]

theorem sweep_swept (w : Nat) {p : Parameters} (hpos : 0 < p.resolution) (x : Expr R) :
    Swept (S := S) w (exactSide p.resolution ^ 2) (sweep w p x) := by
  have count := Grid.pointCount_eq_mod w ⟨p.resolution, hpos⟩
  have room := Grid.reservable_iff w ⟨p.resolution, hpos⟩
  rw [count] at room
  rw [sweep_eq hpos]
  split
  next h =>
    exact swept_ok ((size_channels_sweepGrid _ _ _ _).trans count)
      (by rw [size_positions_sweepGrid, count]) (room.mp h)
  next h => exact swept_overflow (not_lt.mp (mt room.mpr h))

/-- From a certain resolution on the number of points wraps. What a sweep then asks for may still be
too large for a buffer; otherwise it succeeds and leaves points out. The words of a machine have 64
bits or 32, and a resolution has 32. -/
theorem sweep_full_iff (g : Grid) (word : g.resolution < 2 ^ 32) (mode : Mode) (logHeight : Bool)
    (x : Expr R) :
    (∀ w, Grid.Wrapped w g) ∧ Grid.ExactInLongWords g ∧ Grid.ExactInShortWords g ∧
    (∀ w, Swept (S := S) w (exactSide g.resolution ^ 2)
      (sweep w ⟨g.resolution, mode, logHeight⟩ x)) ∧
    ((∃ s : Surface S, sweep 64 ⟨g.resolution, mode, logHeight⟩ x = .ok s ∧
      s.channels.size = exactSide g.resolution ^ 2) ↔ g.resolution ≤ 43835326) ∧
    ((∃ s : Surface S, sweep 32 ⟨g.resolution, mode, logHeight⟩ x = .ok s ∧
      s.channels.size = exactSide g.resolution ^ 2) ↔ g.resolution ≤ 668) := by
  have swept (w : Nat) : Swept (S := S) w (exactSide g.resolution ^ 2)
      (sweep w ⟨g.resolution, mode, logHeight⟩ x) :=
    sweep_swept w (p := ⟨g.resolution, mode, logHeight⟩) g.positive x
  exact ⟨fun w => Grid.wrapped w g, Grid.exactInLongWords word, Grid.exactInShortWords g, swept,
    (swept 64).full_iff.trans long_buffer_lt_iff, (swept 32).full_iff.trans short_buffer_lt_iff⟩

/-- At 3277 subdivisions a unit nearly all points are left out where words are short, and at
214748365 where they are long. -/
theorem sweep_full_iff_wrapped :
    (∃ s, sweepMachine 32 ⟨3277, .real, false⟩ .unknown = .ok s ∧ s.channels.size = 655385 ∧
      exactSide 3277 ^ 2 = 4295622681) ∧
    ∃ s, sweepMachine 64 ⟨214748365, .real, false⟩ .unknown = .ok s ∧
      s.channels.size = 42949672985 ∧ exactSide 214748365 ^ 2 = 18446744116659224601 := by
  obtain ⟨-, -, -, short, -⟩ := sweep_full_iff (S := Float32) ⟨3277, by decide⟩ (by decide)
    .real false (.unknown : Expr Float)
  obtain ⟨-, -, -, long, -⟩ := sweep_full_iff (S := Float32) ⟨214748365, by decide⟩ (by decide)
    .real false (.unknown : Expr Float)
  obtain ⟨s, swept⟩ := (short 32).returned_iff.mpr (by norm_num [exactSide])
  obtain ⟨t, swept'⟩ := (long 64).returned_iff.mpr (by norm_num [exactSide])
  have size := ((short 32).sizes s swept).1
  have size' := ((long 64).sizes t swept').1
  exact ⟨⟨s, swept, size, rfl⟩, t, swept', size', rfl⟩

end Sweep

end Argand.Plot
