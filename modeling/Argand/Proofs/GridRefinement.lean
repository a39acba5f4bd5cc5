import Argand.Proofs.MachineQuotient
import Argand.Proofs.RowMajorSweep
import Argand.Proofs.SurfaceEntries

namespace Argand.Plot

open Machine

variable {n k i j : Nat} {a b : Int}

/-- With `k` times as many steps per unit, `k` times as many steps lead to the same coordinate. -/
theorem coordinate_mul (hk : 0 < k) (hn : 0 < n) (small : k * n < 2 ^ 32) (ha : a ∈ offsets n) :
    Float.ofInt (k * a) / Float.ofNat (k * n) = Float.ofInt a / Float.ofNat n := by
  have coarse : n ≤ k * n := Nat.le_mul_of_pos_left n hk
  have steps : a.natAbs ≤ 10 * n := by
    have low := ha.1
    have high := ha.2
    omega
  have moreSteps : (k * a : Int).natAbs ≤ 10 * (k * n) := by
    calc (k * a : Int).natAbs = k * a.natAbs := by rw [Int.natAbs_mul, Int.natAbs_natCast]
      _ ≤ k * (10 * n) := Nat.mul_le_mul_left k steps
      _ = 10 * (k * n) := Nat.mul_left_comm k 10 n
  refine quotient_congr (by omega) (Nat.mul_pos hk hn) (by omega) (by omega) hn (by omega) ?_
  push_cast
  ring

theorem pointOfOffset_mul (hk : 0 < k) (hn : 0 < n) (small : k * n < 2 ^ 32) (ha : a ∈ offsets n)
    (hb : b ∈ offsets n) : pointOfOffset (k * n) (k * a, k * b) = pointOfOffset n (a, b) :=
  congrArg₂ Complex.mk (coordinate_mul hk hn small ha) (coordinate_mul hk hn small hb)

theorem scaled_lt_exactSide (h : i < exactSide n) : k * i < exactSide (k * n) := by
  have scaled := Nat.mul_le_mul_left k (Nat.le_of_lt_succ h)
  rw [Nat.mul_left_comm] at scaled
  exact Nat.lt_succ_of_le scaled

theorem offset_mul (hj : j < exactSide n) :
    offset (k * n) (k * i * exactSide (k * n) + k * j) =
      (k * (i - 10 * n : Int), k * (j - 10 * n : Int)) := by
  rw [offset_place (k * i) (scaled_lt_exactSide hj)]
  push_cast
  exact Prod.ext (by ring) (by ring)

theorem coarse_square_lt {w : Nat} (hk : 0 < k) (hword : exactSide (k * n) ^ 2 < 2 ^ w) :
    exactSide n ^ 2 < 2 ^ w := by
  have coarse : exactSide n ≤ exactSide (k * n) :=
    Nat.succ_le_succ (Nat.mul_le_mul_left 20 (Nat.le_mul_of_pos_left n hk))
  exact (Nat.pow_le_pow_left coarse 2).trans_lt hword

/-- A point of the coarse grid is a point of the fine one. -/
theorem point_refine {w : Nat} (hw : w ≤ 64) (hk : 0 < k) (hn : 0 < n)
    (hword : exactSide (k * n) ^ 2 < 2 ^ w) (hi : i < exactSide n) (hj : j < exactSide n) :
    (Grid.point w ⟨k * n, Nat.mul_pos hk hn⟩ (k * i * exactSide (k * n) + k * j) :
      Complex Float) = Grid.point w ⟨n, hn⟩ (i * exactSide n + j) := by
  have place := place_lt (scaled_lt_exactSide (k := k) hi) (scaled_lt_exactSide (k := k) hj)
  have fine := point_eq_pointOfOffset (g := ⟨k * n, Nat.mul_pos hk hn⟩) hw hword place
  have rough := point_eq_pointOfOffset (g := ⟨n, hn⟩) hw (coarse_square_lt hk hword)
    (place_lt hi hj)
  rw [fine, rough, offset_mul hj, offset_place i hj]
  exact pointOfOffset_mul hk hn (resolution_lt hw hword) (mem_offsets.mpr hi) (mem_offsets.mpr hj)

section Sweep

variable {S : Type} [Elementary Float] [Scalar S] [Narrowing Float S]

/-- A finer surface holds the entries of a coarse one at the points that they share. -/
theorem sweep_refine {w : Nat} (hw : w ≤ 64) (x : Expr Float) (mode : Mode) (log : Bool)
    (hn : 1 ≤ n) (hk : 1 ≤ k) (hword : exactSide (k * n) ^ 2 < 2 ^ w) :
    ∃ s t : Surface S,
      sweep w ⟨n, mode, log⟩ x = (if 12 * exactSide n ^ 2 < 2 ^ (w - 1) then .ok s
        else .error .capacityOverflow) ∧
      sweep w ⟨k * n, mode, log⟩ x = (if 12 * exactSide (k * n) ^ 2 < 2 ^ (w - 1) then .ok t
        else .error .capacityOverflow) ∧
      ∀ i ≤ 20 * n, ∀ j ≤ 20 * n, ∃ e : Sample S, s.Holds (i * exactSide n + j) e ∧
        t.Holds (k * i * exactSide (k * n) + k * j) e := by
  have pos : 1 ≤ k * n := Nat.mul_pos hk hn
  have hword' := coarse_square_lt hk hword
  have count : Grid.pointCount w ⟨k * n, pos⟩ = exactSide (k * n) ^ 2 := Grid.pointCount_eq hword
  have count' : Grid.pointCount w ⟨n, hn⟩ = exactSide n ^ 2 := Grid.pointCount_eq hword'
  refine ⟨_, _, sweep_eq_of_lt (p := ⟨n, mode, log⟩) hn hword' x,
    sweep_eq_of_lt (p := ⟨k * n, mode, log⟩) pos hword x, fun i hi j hj => ?_⟩
  have row : i < exactSide n := Nat.lt_succ_of_le hi
  have column : j < exactSide n := Nat.lt_succ_of_le hj
  have place := place_lt (scaled_lt_exactSide (k := k) row) (scaled_lt_exactSide (k := k) column)
  refine ⟨_, holds_sweepGrid _ _ _ x _ (by rw [count']; exact place_lt row column), ?_⟩
  have same : sampleAt (S := S) w ⟨k * n, pos⟩ ⟨k * n, mode, log⟩ x
      (k * i * exactSide (k * n) + k * j) =
        sampleAt w ⟨n, hn⟩ ⟨n, mode, log⟩ x (i * exactSide n + j) := by
    rw [sampleAt, point_refine hw hk hn hword row column]
    rfl
  rw [← same]
  exact holds_sweepGrid _ _ _ x _ (by rw [count]; exact place)

end Sweep

/-- The inverse by length and angle, on thirds and on parts of them. -/
theorem sweep_refine_thirds :
    ∃ s t, sweepMachine 64 ⟨3, .length, true⟩ (.binary .div (.literal 1) .unknown) = .ok s ∧
      sweepMachine 64 ⟨21, .length, true⟩ (.binary .div (.literal 1) .unknown) = .ok t ∧
      ∀ i ≤ 60, ∀ j ≤ 60, ∃ e, s.Holds (i * 61 + j) e ∧ t.Holds (7 * i * 421 + 7 * j) e := by
  obtain ⟨s, t, coarse, fine, same⟩ := @sweep_refine 3 7 Float32 _ _ _ 64 (by decide)
    (.binary .div (.literal 1) .unknown) .length true (by decide) (by decide) (by decide)
  exact ⟨s, t, coarse.trans (if_pos (by decide)), fine.trans (if_pos (by decide)), same⟩

end Argand.Plot
