import Argand.Preview
import Mathlib.Data.List.Basic

namespace Argand.Preview

variable {side : Nat}

theorem stride_pos (side : Nat) : 0 < stride side := Nat.le_max_left 1 _

/-- The number of regular lines, less one, is the number of whole strides on a side. -/
theorem lines_eq (hs : 0 < side) : ∃ k, k * stride side < side ∧ side ≤ (k + 1) * stride side ∧
    lines side = List.range' 0 (k + 1) (stride side) ++
      if k * stride side = side - 1 then [] else [side - 1] := by
  have pos := stride_pos side
  have count : (side + stride side - 1) / stride side = (side - 1) / stride side + 1 := by
    rw [← Nat.add_div_right _ pos]
    congr 1
    omega
  refine ⟨(side - 1) / stride side, ?_, ?_, ?_⟩
  · have := Nat.div_mul_le_self (side - 1) (stride side)
    omega
  · have : side - 1 < (side - 1) / stride side * stride side + stride side :=
      Nat.lt_div_mul_add pos
    rw [Nat.succ_mul]
    omega
  · rw [lines, count]
    have last : (List.range' 0 ((side - 1) / stride side + 1) (stride side)).getLast? =
        some ((side - 1) / stride side * stride side) := by
      rw [List.range'_concat]
      simp [Nat.mul_comm]
    simp only [last, Option.some.injEq]
    split <;> simp

theorem getElem?_lines (hs : 0 < side) : ∃ k, k * stride side < side ∧
    side ≤ (k + 1) * stride side ∧ (∀ i ≤ k, (lines side)[i]? = some (i * stride side)) ∧
    (lines side)[k + 1]? = (if k * stride side = side - 1 then none else some (side - 1)) ∧
    (lines side).length = if k * stride side = side - 1 then k + 1 else k + 2 := by
  obtain ⟨k, lower, upper, eq⟩ := lines_eq hs
  refine ⟨k, lower, upper, fun i hi => ?_, ?_, ?_⟩
  · rw [eq, List.getElem?_append_left (by simp; omega), List.getElem?_range' (by omega)]
    simp [Nat.mul_comm]
  · rw [eq, List.getElem?_append_right (by simp)]
    split <;> simp
  · rw [eq]
    split <;> simp

/-- The lines go from the first to the last one in strides, of which only the last may be shorter. -/
structure IsSelection (side : Nat) (ls : List Nat) : Prop where
  first : ls[0]? = some 0
  last : ls[ls.length - 1]? = some (side - 1)
  increasing : ls.Pairwise (· < ·)
  step : ∀ i a b, ls[i]? = some a → ls[i + 1]? = some b →
    b = a + stride side ∨ i + 2 = ls.length ∧ a < b ∧ b < a + stride side

theorem step_lines (hs : 0 < side) {i a b : Nat} (ha : (lines side)[i]? = some a)
    (hb : (lines side)[i + 1]? = some b) :
    b = a + stride side ∨ i + 2 = (lines side).length ∧ a < b ∧ b < a + stride side := by
  obtain ⟨k, lower, upper, regular, last, length⟩ := getElem?_lines hs
  have bound := (List.getElem?_eq_some_iff.mp hb).1
  rcases Nat.lt_trichotomy i k with inner | rfl | outer
  · rw [regular i (Nat.le_of_lt inner), Option.some.injEq] at ha
    rw [regular (i + 1) inner, Option.some.injEq] at hb
    exact Or.inl (by rw [← ha, ← hb, Nat.succ_mul])
  · rw [regular i (Nat.le_refl i), Option.some.injEq] at ha
    rw [last] at hb
    split at hb
    next => cases hb
    next ne =>
      rw [if_neg ne] at length
      rw [Option.some.injEq] at hb
      rw [Nat.succ_mul] at upper
      exact Or.inr ⟨length.symm, by omega, by omega⟩
  · split at length <;> omega

theorem selection_lines (hs : 0 < side) : IsSelection side (lines side) := by
  have pos := stride_pos side
  have step : ∀ i a b, (lines side)[i]? = some a → (lines side)[i + 1]? = some b →
      b = a + stride side ∨ i + 2 = (lines side).length ∧ a < b ∧ b < a + stride side :=
    fun _ _ _ ha hb => step_lines hs ha hb
  obtain ⟨k, lower, upper, regular, last, length⟩ := getElem?_lines hs
  refine ⟨by simpa using regular 0 (Nat.zero_le k), ?_, ?_, step⟩
  · split at length
    next eq => rw [length, Nat.add_sub_cancel, regular k (Nat.le_refl k), eq]
    next ne => rw [length, Nat.add_succ_sub_one, last, if_neg ne]
  · refine List.isChain_iff_pairwise.mp (List.isChain_iff_getElem.mpr fun i hi => ?_)
    rcases step i _ _ (List.getElem?_eq_getElem (by omega)) (List.getElem?_eq_getElem hi) with
      regular | ⟨-, shorter, -⟩
    · omega
    · exact shorter

theorem IsSelection.lt_side {ls : List Nat} (h : IsSelection side ls) {l : Nat} (hl : l ∈ ls) :
    l ≤ side - 1 := by
  obtain ⟨i, hi, rfl⟩ := List.mem_iff_getElem.mp hl
  obtain ⟨hlast, last⟩ := List.getElem?_eq_some_iff.mp h.last
  rcases Nat.lt_or_eq_of_le (Nat.le_sub_one_of_lt hi) with before | eq
  · have := List.pairwise_iff_getElem.mp h.increasing i _ hi hlast before
    omega
  · simp only [eq, last, Nat.le_refl]

theorem lt_of_mem_lines {l : Nat} (hs : 0 < side) (hl : l ∈ lines side) : l < side := by
  have := (selection_lines hs).lt_side hl
  omega

theorem side_le_stride (side : Nat) : side ≤ 240 * stride side := by
  have strides : stride side = max 1 ((side - 1) / 120) := rfl
  omega

/-- Few lines are shown, however many there are. -/
theorem length_lines_le (hs : 0 < side) : (lines side).length ≤ 241 := by
  obtain ⟨k, lower, upper, regular, last, length⟩ := getElem?_lines hs
  have few : k < 240 :=
    Nat.lt_of_mul_lt_mul_right (Nat.lt_of_lt_of_le lower (side_le_stride side))
  split at length <;> omega

end Argand.Preview
