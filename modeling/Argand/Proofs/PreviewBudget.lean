import Argand.Proofs.PreviewMesh

namespace Argand.Preview

open Plot (Mode Surface)

variable {side : Nat}

/-- The cells on a side of the mesh. -/
def cellsPerSide (side : Nat) : Nat := (lines side).length - 1

theorem length_lines (hs : 0 < side) : (lines side).length = cellsPerSide side + 1 := by
  have first := (selection_lines hs).first
  have := (List.getElem?_eq_some_iff.mp first).1
  rw [cellsPerSide]
  omega

/-- The number of strides that a side takes, a shorter one at the end counted as one. -/
theorem cellsPerSide_eq (hs : 0 < side) :
    cellsPerSide side = (side - 1 + stride side - 1) / stride side := by
  have pos := stride_pos side
  obtain ⟨k, lower, upper, -, -, length⟩ := getElem?_lines hs
  rw [Nat.succ_mul] at upper
  symm
  rw [cellsPerSide, length, Nat.div_eq_iff pos]
  by_cases whole : k * stride side = side - 1
  · rw [if_pos whole, Nat.add_sub_cancel]
    omega
  · rw [if_neg whole, Nat.add_succ_sub_one, Nat.succ_mul]
    omega

theorem stride_of_lt (h : side - 1 < 2 * maxCells) : stride side = 1 := by
  have once : (side - 1) / maxCells ≤ 1 :=
    Nat.le_of_lt_succ ((Nat.div_lt_iff_lt_mul (by decide)).mpr h)
  exact Nat.max_eq_left once

theorem stride_of_le (h : maxCells ≤ side - 1) : stride side = (side - 1) / maxCells := by
  have once : 1 ≤ (side - 1) / maxCells := Nat.div_pos h (by decide)
  exact Nat.max_eq_right once

/-- Below twice the budget, every line is displayed. -/
theorem cellsPerSide_of_lt (hs : 0 < side) (h : side - 1 < 2 * maxCells) :
    cellsPerSide side = side - 1 := by
  rw [cellsPerSide_eq hs, stride_of_lt h, Nat.div_one, Nat.add_sub_cancel]

/-- The stride is cut down to an integer, so what is left of the side takes strides of its own. -/
theorem cellsPerSide_of_le (hs : 0 < side) (h : maxCells ≤ side - 1) :
    cellsPerSide side =
      maxCells + ((side - 1) % maxCells + stride side - 1) / stride side := by
  have pos := stride_pos side
  have split : side - 1 = stride side * maxCells + (side - 1) % maxCells := by
    rw [stride_of_le h, Nat.div_add_mod']
  have apart : side - 1 + stride side - 1 =
      (side - 1) % maxCells + stride side - 1 + stride side * maxCells := by
    omega
  rw [cellsPerSide_eq hs, apart, Nat.add_mul_div_left _ _ pos, Nat.add_comm]

theorem cellsPerSide_lt (hs : 0 < side) : cellsPerSide side < 2 * maxCells := by
  rcases Nat.lt_or_ge (side - 1) maxCells with few | many
  · rw [cellsPerSide_of_lt hs (by omega)]
    omega
  · have rest : (side - 1) % maxCells < maxCells := Nat.mod_lt _ (by decide)
    have pos := stride_pos side
    have taken : ((side - 1) % maxCells + stride side - 1) / stride side ≤
        (side - 1) % maxCells := by
      rw [Nat.div_le_iff_le_mul_add_pred pos]
      have := Nat.le_mul_of_pos_left ((side - 1) % maxCells) pos
      omega
    rw [cellsPerSide_of_le hs many]
    omega

/-- The budget is kept by the sides that do not need it and by its multiples. -/
theorem cellsPerSide_le_iff (hs : 0 < side) :
    cellsPerSide side ≤ maxCells ↔ side - 1 ≤ maxCells ∨ maxCells ∣ side - 1 := by
  rcases Nat.lt_or_ge (side - 1) maxCells with few | many
  · rw [cellsPerSide_of_lt hs (by omega)]
    omega
  · have pos := stride_pos side
    rw [cellsPerSide_of_le hs many, Nat.dvd_iff_mod_eq_zero]
    constructor
    · intro within
      have none : ((side - 1) % maxCells + stride side - 1) / stride side = 0 := by
        simpa using within
      rw [Nat.div_eq_zero_iff_lt pos] at none
      omega
    · intro rest
      have none : (side - 1) % maxCells = 0 := by
        rcases rest with small | none
        · have equal : side - 1 = maxCells := by omega
          rw [equal, Nat.mod_self]
        · exact none
      rw [none, Nat.zero_add, Nat.div_eq_of_lt (by omega), Nat.add_zero]

/-- Lines are left out from twice the budget on. -/
theorem cellsPerSide_lt_iff (hs : 0 < side) :
    cellsPerSide side < side - 1 ↔ 2 * maxCells ≤ side - 1 := by
  rcases Nat.lt_or_ge (side - 1) (2 * maxCells) with few | many
  · rw [cellsPerSide_of_lt hs few]
    omega
  · have := cellsPerSide_lt hs
    omega

/-- The mesh of a square surface has fewer cells on a side than twice the budget. It has as many as
the surface up to there, and keeps the budget itself only where the surface does or where the budget
divides its side. For the surface of a sweep that means a resolution of at most six, or a multiple
of six. -/
theorem ofSurface?_budget (o : Orientation) (mode : Mode) (palette : Palette)
    {s : Surface Float32} (hs : 2 ≤ side) (square : side * side = s.pointCount)
    (triples : s.positions.size = 3 * s.pointCount) :
    (∃ preview, ofSurface? o mode palette s = some preview ∧
      preview.vertices.size = (cellsPerSide side + 1) * (cellsPerSide side + 1) ∧
      preview.cells.length = cellsPerSide side * cellsPerSide side) ∧
    cellsPerSide side < 2 * maxCells ∧
    (cellsPerSide side < side - 1 ↔ 2 * maxCells ≤ side - 1) ∧
    (maxCells ≤ side - 1 → cellsPerSide side =
      maxCells + ((side - 1) % maxCells + stride side - 1) / stride side) ∧
    (cellsPerSide side ≤ maxCells ↔ side - 1 ≤ maxCells ∨ maxCells ∣ side - 1) ∧
    ∀ resolution, side = 2 * Plot.Grid.halfExtent * resolution + 1 →
      (cellsPerSide side ≤ maxCells ↔ resolution ≤ 6 ∨ 6 ∣ resolution) := by
  have pos : 0 < side := by omega
  refine ⟨?_, cellsPerSide_lt pos, cellsPerSide_lt_iff pos, cellsPerSide_of_le pos,
    cellsPerSide_le_iff pos, fun resolution points => ?_⟩
  · obtain ⟨preview, painted, mesh⟩ : ∃ preview, ofSurface? o mode palette s = some preview ∧
        IsMesh o mode palette s side (lines side) preview :=
      isMesh_of_side? (side?_eq_some_iff.mpr ⟨pos, square, triples⟩)
    have size := mesh.size
    have count := mesh.cellCount
    rw [length_lines pos] at size count
    exact ⟨preview, painted, size, count⟩
  · have segments : side - 1 = 20 * resolution := by
      rw [points]
      rfl
    have budget : maxCells = 20 * 6 := rfl
    rw [cellsPerSide_le_iff pos, segments, budget, Nat.mul_dvd_mul_iff_left (by decide)]
    omega

/-- The plot that the window opens with has 200 cells on a side, and all of them are displayed. -/
theorem ofSurface?_budget_exceeded :
    (∃ preview, ofSurface? ⟨0.0, 1.0, 0.0, 1.0⟩ .real .coloured
      ⟨.replicate 121203 0.0, .replicate 40401 0.0, 0⟩ = some preview ∧
        preview.vertices.size = 201 * 201 ∧ preview.cells.length = 200 * 200) ∧
    ¬ cellsPerSide 201 ≤ maxCells := by
  have points : Surface.pointCount (S := Float32)
      ⟨.replicate 121203 0.0, .replicate 40401 0.0, 0⟩ = 40401 := Array.size_replicate
  have triples : (Array.replicate 121203 (0.0 : Float32)).size = 3 * 40401 := Array.size_replicate
  obtain ⟨⟨preview, painted, size, count⟩, -, -, -, -, resolutions⟩ :=
    @ofSurface?_budget 201 ⟨0.0, 1.0, 0.0, 1.0⟩ .real .coloured _ (by decide)
      (by rw [points]) (by rw [points]; exact triples)
  have shown : cellsPerSide 201 = 200 := cellsPerSide_of_lt (by decide) (by decide)
  rw [shown] at size count
  refine ⟨⟨preview, painted, size, count⟩, fun within => ?_⟩
  have := (resolutions 10 rfl).mp within
  omega

end Argand.Preview
