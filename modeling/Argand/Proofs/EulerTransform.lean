import Argand.Proofs.PolygammaRecurrence
import Argand.Complex.Zeta

namespace Argand.Complex

open Exact

section loop

/-- What the loop along a row carries from one term to the next. -/
structure RowState (R : Type) where
  index : Nat
  binomial : R
  sum : Complex R

variable {R : Type} [Scalar R] {n : Nat} {state : RowState R}

/-- One turn of the loop along row `n`, which needs the difference of `n` and the index to be a
natural number. -/
def RowState.turn? (n : Nat) (state : RowState R) (q : Complex R) : Option (RowState R) :=
  if n < state.index then none
  else
    some ⟨state.index + 1,
      state.binomial * ((n - state.index : Nat) : R) / ((state.index + 1 : Nat) : R),
      state.sum + q * (alternatingSign state.index * state.binomial)⟩

/-- The alternating sum that the loop still has to finish. -/
def RowState.finish (n : Nat) (state : RowState R) (rest : List (Complex R)) : Complex R :=
  alternatingSum n state.index state.binomial state.sum.re state.sum.im rest

theorem finish_of_turn {q : Complex R} {next : RowState R} (h : state.turn? n q = some next)
    (rest : List (Complex R)) : state.finish n (q :: rest) = next.finish n rest := by
  unfold RowState.turn? at h
  split at h
  next => cases h
  next inside =>
    cases h
    rw [RowState.finish, alternatingSum, if_neg inside]
    rfl

/-- The loop goes on from the state after some turns to the same sum. -/
theorem finish_of_turns {qs : List (Complex R)} {next : RowState R}
    (h : qs.foldlM (RowState.turn? n) state = some next) (rest : List (Complex R)) :
    state.finish n (qs ++ rest) = next.finish n rest := by
  induction qs generalizing state with
  | nil =>
    cases h
    rfl
  | cons q qs ih =>
    obtain ⟨middle, turned, h⟩ := Option.bind_eq_some_iff.mp h
    exact (finish_of_turn turned _).trans (ih h)

theorem finish_of_lt (h : n < state.index) (rest : List (Complex R)) :
    state.finish n rest = state.sum := by
  cases rest with
  | nil => rfl
  | cons q rest => rw [RowState.finish, alternatingSum, if_pos h]

end loop

section branches

variable {R : Type} [Scalar R] [Elementary R] {s : Complex R}

theorem zetaWithin_of_pole (pole : isZetaPole s = true) (reflections terms : Nat) :
    zetaWithin reflections s terms = ofReal Scalar.infinity := by
  unfold zetaWithin
  exact if_pos pole

theorem zetaWithin_of_right (regular : isZetaPole s = false) (right : ¬ s.re < 0)
    (reflections terms : Nat) : zetaWithin reflections s terms = zetaSeries s terms := by
  unfold zetaWithin
  rw [if_neg (Bool.eq_false_iff.mp regular)]
  split
  next left => exact absurd (of_decide_eq_true left) right
  next => rfl

/-- What the functional equation multiplies the value at the reflected point by. -/
def reflectionFactor (s : Complex R) : Complex R :=
  pow (ofReal 2.0) s * pow (ofReal Elementary.pi) (s - (1 : R)) *
    sin (s * (Elementary.pi / 2.0 : R)) * gamma (1 - s)

theorem zetaWithin_of_left (regular : isZetaPole s = false) (left : s.re < 0) (n terms : Nat) :
    zetaWithin (n + 1) s terms = reflectionFactor s * zetaWithin n (1 - s) terms := by
  rw [zetaWithin, if_neg (Bool.eq_false_iff.mp regular)]
  · rfl
  · exact decide_eq_true left

end branches

variable {K : Type} [Field K] [LinearOrder K] [FloorRing K]

theorem isZetaPole_iff {s : Complex K} : isZetaPole s = true ↔ s = 1 := by
  have parts : isZetaPole s = (decide (s.re = 1) && decide (s.im = 0)) := rfl
  rw [parts, Bool.and_eq_true, decide_eq_true_iff, decide_eq_true_iff]
  exact ⟨fun ⟨re, im⟩ => ext_parts re im, fun h => h ▸ ⟨rfl, rfl⟩⟩

variable {n k : Nat} {q : ℕ → Complex K}

/-- The part of row `n` before index `k`. -/
def rowSum (q : ℕ → Complex K) (n k : Nat) : Complex K :=
  ∑ j ∈ Finset.range k, (-1) ^ j * (n.choose j : Complex K) * q j

/-- The state before the term of index `k`. -/
def rowState (q : ℕ → Complex K) (n k : Nat) : RowState K := ⟨k, n.choose k, rowSum q n k⟩

theorem rowState_zero (q : ℕ → Complex K) (n : Nat) : rowState q n 0 = ⟨0, 1, 0⟩ := by
  simp [rowState, rowSum]

variable [IsStrictOrderedRing K]

/-- From one binomial coefficient to the next the division leaves no remainder. -/
theorem turn_rowState (h : k ≤ n) :
    (rowState q n k).turn? n (q k) = some (rowState q n (k + 1)) := by
  have binomial : (n.choose k : K) * ((n - k : ℕ) : K) / ((k + 1 : ℕ) : K) = n.choose (k + 1) := by
    rw [div_eq_iff (Nat.cast_ne_zero.mpr k.succ_ne_zero)]
    exact_mod_cast (Nat.choose_succ_right_eq n k).symm
  have term : q k * (alternatingSign k * (n.choose k : K)) =
      (-1) ^ k * (n.choose k : Complex K) * q k := by
    rw [alternatingSign_eq, mul_real, map_mul, map_pow, map_neg, map_one, map_natCast, mul_comm]
  have turned : (rowState q n k).turn? n (q k) = some ⟨k + 1,
      n.choose k * ((n - k : ℕ) : K) / ((k + 1 : ℕ) : K),
      rowSum q n k + q k * (alternatingSign k * (n.choose k : K))⟩ := if_neg (not_lt.mpr h)
  rw [turned, binomial, term, rowState, rowSum, rowSum, Finset.sum_range_succ]

/-- No turn fails before the row is at its end. -/
theorem turns_rowState (h : k ≤ n + 1) :
    ((List.range k).map q).foldlM (RowState.turn? n) (rowState q n 0) = some (rowState q n k) := by
  induction k with
  | zero => rfl
  | succ k ih =>
    have turned := turn_rowState (q := q) (Nat.le_of_lt_succ h)
    rw [List.range_succ, List.map_append, List.foldlM_append, ih (by omega)]
    simp [turned]

/-- From the state before any term of the row the loop goes on to the same sum. -/
theorem alternatingSum_resume {terms : Nat} (h : k ≤ n + 1) (h' : k ≤ terms) :
    alternatingSum n 0 1 0 0 ((List.range terms).map q) =
      (rowState q n k).finish n (((List.range terms).map q).drop k) := by
  have split : (List.range terms).map q =
      (List.range k).map q ++ ((List.range terms).map q).drop k := by
    have front : (List.range k).map q = ((List.range terms).map q).take k := by
      rw [← List.map_take, List.take_range, min_eq_left h']
    rw [front, List.take_append_drop]
  have start : alternatingSum n 0 1 0 0 ((List.range terms).map q) =
      (rowState q n 0).finish n ((List.range terms).map q) := by
    rw [rowState_zero]
    rfl
  rw [start]
  nth_rewrite 1 [split]
  exact finish_of_turns (turns_rowState h) _

theorem alternatingSum_eq {terms : Nat} (h : n < terms) :
    alternatingSum n 0 1 0 0 ((List.range terms).map q) = rowSum q n (n + 1) := by
  rw [alternatingSum_resume le_rfl h]
  exact finish_of_lt (Nat.lt_succ_self n) _

theorem eulerSum_add {terms : Nat} (rows n : Nat) (sum : Complex K) (h : n + rows ≤ terms) :
    eulerSum.add ((List.range terms).map q) rows n (2 ^ (n + 1)) sum =
      sum + ∑ i ∈ Finset.range rows, rowSum q (n + i) (n + i + 1) / 2 ^ (n + i + 1) := by
  induction rows generalizing n sum with
  | zero => exact (add_zero sum).symm
  | succ rows ih =>
    have two : (2.0 : K) = 2 := by norm_num
    have scale : realAxis ((2 : K) ^ (n + 1)) = 2 ^ (n + 1) := by rw [map_pow, map_ofNat]
    have shifted (i : Nat) : n + 1 + i = n + (i + 1) := by omega
    rw [eulerSum.add, two, ← pow_succ, ih (n + 1) _ (by omega), alternatingSum_eq (by omega),
      div_real, scale, Finset.sum_range_succ', add_assoc]
    simp only [shifted]
    rw [add_comm (Finset.sum _ _)]
    rfl

theorem eulerSum_eq (q : ℕ → Complex K) (terms : Nat) :
    eulerSum ((List.range terms).map q) =
      ∑ n ∈ Finset.range terms, rowSum q n (n + 1) / 2 ^ (n + 1) := by
  have length : ((List.range terms).map q).length = terms := by simp
  have scale : (2.0 : K) = 2 ^ (0 + 1) := by norm_num
  rw [eulerSum, length, scale, eulerSum_add terms 0 0 (by omega), zero_add]
  simp only [Nat.zero_add]

/-- To the right of the imaginary axis the series is the transform of Euler, up to the number of
terms that is allowed. Along each row the carried number is the binomial coefficient before every
term, no difference is negative, and the sum is the one that is added up. -/
theorem zetaOfTerms_eulerTransform [Elementary K] {s : Complex K} (right : 0 ≤ s.re)
    (regular : s ≠ 1) (terms : Nat) :
    let count := min terms 200
    let q (k : ℕ) : Complex K := pow (ofReal ((k + 1 : ℕ) : K)) (-s)
    let eta := ∑ n ∈ Finset.range count,
      (∑ k ∈ Finset.range (n + 1), (-1) ^ k * (n.choose k : Complex K) * q k) / 2 ^ (n + 1)
    zetaPowers s count = (List.range count).map q ∧
      eulerSum (zetaPowers s count) = eta ∧
      zetaOfTerms s terms = divide eta (1 - pow (ofReal 2.0) (1 - s)) ∧
      ∀ n < count, ∀ k ≤ n + 1,
        let state : RowState K :=
          ⟨k, n.choose k, ∑ j ∈ Finset.range k, (-1) ^ j * (n.choose j : Complex K) * q j⟩
        ((zetaPowers s count).take k).foldlM (RowState.turn? n) ⟨0, 1, 0⟩ = some state ∧
          n.choose k * (n - k) = n.choose (k + 1) * (k + 1) ∧
          alternatingSum n 0 1 0 0 (zetaPowers s count) =
            state.finish n ((zetaPowers s count).drop k) := by
  intro count q eta
  have powers : zetaPowers s count = (List.range count).map q := rfl
  have sum : eulerSum (zetaPowers s count) = eta := eulerSum_eq q count
  refine ⟨powers, sum, ?_, fun n hn k hk => ⟨?_, (Nat.choose_succ_right_eq n k).symm, ?_⟩⟩
  · rw [← sum]
    exact zetaWithin_of_right (Bool.eq_false_iff.mpr (mt isZetaPole_iff.mp regular))
      (not_lt.mpr right) 1 count
  · have within : k ≤ count := by omega
    rw [powers, ← List.map_take, List.take_range, min_eq_left within, ← rowState_zero q n]
    exact turns_rowState hk
  · exact alternatingSum_resume hk (by omega)

/-- Two terms of the series at two. -/
theorem zetaOfTerms_eulerTransform_two : (ofReal 2 : Complex ℚ) ≠ 1 ∧ ∀ [Elementary ℚ],
    zetaOfTerms (ofReal 2 : Complex ℚ) 2 = ofReal (11 / 8) := by
  have nonneg : 0 ≤ (ofReal 2 : Complex ℚ).re := by decide
  have regular : (ofReal 2 : Complex ℚ) ≠ 1 := by decide
  refine ⟨regular, fun {_} => ?_⟩
  have series := (zetaOfTerms_eulerTransform nonneg regular 2).2.2.1
  have power (x : ℚ) {n : ℤ} (h : n.natAbs ≤ maxIntegerExponent) :
      pow (ofReal x) (ofReal (n : ℚ)) = realAxis (x ^ n) := by
    rw [pow_intCast _ h, powInt_eq_zpow, map_zpow₀]
    rfl
  have square : -(ofReal 2 : Complex ℚ) = ofReal ((-2 : ℤ) : ℚ) := by ext <;> norm_num
  have exponent : 1 - (ofReal 2 : Complex ℚ) = ofReal ((-1 : ℤ) : ℚ) := by ext <;> norm_num
  have two : min 2 200 = 2 := by decide
  have value : (0 +
      (0 + (-1) ^ 0 * (Nat.choose 0 0 : ℚ) * ((0 + 1 : ℕ) : ℚ) ^ (-2 : ℤ)) / 2 ^ (0 + 1) +
      (0 + (-1) ^ 0 * (Nat.choose 1 0 : ℚ) * ((0 + 1 : ℕ) : ℚ) ^ (-2 : ℤ) +
        (-1) ^ 1 * (Nat.choose 1 1 : ℚ) * ((1 + 1 : ℕ) : ℚ) ^ (-2 : ℤ)) / 2 ^ (1 + 1)) /
      (1 - 2.0 ^ (-1 : ℤ)) = 11 / 8 := by
    norm_num
  have image := congrArg realAxis value
  rw [square, exponent, divide_eq_div] at series
  simp only [two, Finset.sum_range_succ, Finset.sum_range_zero,
    power _ (show (-2 : ℤ).natAbs ≤ maxIntegerExponent by decide),
    power _ (show (-1 : ℤ).natAbs ≤ maxIntegerExponent by decide)] at series
  simp only [map_div₀, map_add, map_mul, map_pow, map_neg, map_sub, map_zero, map_one,
    map_natCast, map_ofNat] at image
  have right : (ofReal (11 / 8) : Complex ℚ) = 11 / 8 := by
    change realAxis (11 / 8) = _
    rw [map_div₀, map_ofNat, map_ofNat]
  rw [series, right]
  exact image

end Argand.Complex
