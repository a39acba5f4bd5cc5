import Argand.Proofs.PaintingOrder
import Argand.Proofs.PreviewLines
import Argand.Proofs.SweepSamples
import Mathlib.Data.List.Nodup
import Mathlib.Data.Nat.Sqrt

namespace Argand

/-- The depth of the cell is the mean over its corners, which are all there. -/
def Cell.MeanDepth (vertices : Array Vertex) (c : Cell) : Prop :=
  ∃ p q r t, vertices[c.corners.1]? = some p ∧ vertices[c.corners.2.1]? = some q ∧
    vertices[c.corners.2.2.1]? = some r ∧ vertices[c.corners.2.2.2]? = some t ∧
    c.depth = (p.depth + q.depth + r.depth + t.depth) / 4.0

namespace Preview

open Plot (Mode Surface length_flatMap_of_length getElem?_flatMap_of_length)

variable {o : Orientation} {mode : Mode} {palette : Palette} {s : Surface Float32} {side : Nat}
  {vertices : Array Vertex} {cells : List Cell} {m : Nat}

/-- The vertex stands on the point of the surface with the given index, with its height cut off and
in the colour of its channel. -/
structure StandsOn (o : Orientation) (mode : Mode) (palette : Palette) (s : Surface Float32)
    (index : Nat) (v : Vertex) : Prop where
  x : s.positions[3 * index]? = some v.x
  height : ∃ h, s.positions[3 * index + 1]? = some h ∧
    v.height = Scalar.clamp (-maxHeight) maxHeight h
  low : ¬ v.height < -maxHeight
  high : ¬ maxHeight < v.height
  z : s.positions[3 * index + 2]? = some v.z
  colour : ∃ channel, s.channels[index]? = some channel ∧
    v.colour = Plot.colour mode palette channel
  depth : v.depth = o.depth v.x v.height v.z

theorem clamp_within (x : Float32) :
    ¬ Scalar.clamp (-maxHeight) maxHeight x < -maxHeight ∧
    ¬ maxHeight < Scalar.clamp (-maxHeight) maxHeight x := by
  unfold Scalar.clamp
  split
  next => decide
  next low =>
    split
    next => decide
    next high => exact ⟨low, high⟩

theorem standsOn_vertex {index : Nat} (hp : s.positions.size = 3 * s.pointCount)
    (hi : index < s.pointCount) :
    StandsOn o mode palette s index (vertex o mode palette s index) := by
  rw [Surface.pointCount] at hp hi
  have x : 3 * index < s.positions.size := by omega
  have height : 3 * index + 1 < s.positions.size := by omega
  have z : 3 * index + 2 < s.positions.size := by omega
  refine ⟨by simp [vertex, x], ⟨s.positions[3 * index + 1], by simp [height], ?_⟩,
    (clamp_within _).1, (clamp_within _).2, by simp [vertex, z],
    ⟨s.channels[index], by simp [hi], ?_⟩, rfl⟩
  · simp [vertex, height]
  · simp [vertex, hi]

theorem length_meshVertices (o : Orientation) (mode : Mode) (palette : Palette)
    (s : Surface Float32) (side : Nat) : (meshVertices o mode palette s side).length =
      (lines side).length * (lines side).length :=
  length_flatMap_of_length (fun _ => List.length_map _) _

theorem getElem?_meshVertices {a b l c : Nat} (hl : (lines side)[a]? = some l)
    (hc : (lines side)[b]? = some c) :
    (meshVertices o mode palette s side)[a * (lines side).length + b]? =
      some (vertex o mode palette s (l * side + c)) := by
  have inside := (List.getElem?_eq_some_iff.mp hc).1
  rw [meshVertices, getElem?_flatMap_of_length (fun _ => List.length_map _) hl inside,
    List.getElem?_map, hc]
  rfl

/-- The corners of the cell between two lines and two columns that follow each other. -/
def cornersAt (m line column : Nat) : Nat × Nat × Nat × Nat :=
  (line * m + column, line * m + column + 1, (line + 1) * m + column, (line + 1) * m + column + 1)

theorem corner_lt {line column : Nat} (hl : line < m - 1) (hc : column < m - 1) :
    (line + 1) * m + column + 1 < m * m := by
  have rows : (line + 2) * m ≤ m * m := Nat.mul_le_mul_right m (by omega)
  rw [Nat.succ_mul] at rows
  omega

theorem meanDepth_cell {line column : Nat} (size : vertices.size = m * m) (hl : line < m - 1)
    (hc : column < m - 1) : (cell vertices m line column).MeanDepth vertices := by
  have bound := corner_lt hl hc
  have next : (line + 1) * m = line * m + m := Nat.succ_mul line m
  have there (k : Nat) (hk : k ≤ (line + 1) * m + column + 1) : ∃ v, vertices[k]? = some v :=
    ⟨_, Array.getElem?_eq_getElem (by omega)⟩
  obtain ⟨p, hp⟩ := there (line * m + column) (by omega)
  obtain ⟨q, hq⟩ := there (line * m + column + 1) (by omega)
  obtain ⟨r, hr⟩ := there ((line + 1) * m + column) (by omega)
  obtain ⟨t, ht⟩ := there ((line + 1) * m + column + 1) (by omega)
  exact ⟨p, q, r, t, hp, hq, hr, ht, by simp [cell, hp, hq, hr, ht]⟩

theorem length_rowMajorCells (vertices : Array Vertex) (m : Nat) :
    (rowMajorCells vertices m).length = (m - 1) * (m - 1) := by
  rw [rowMajorCells, length_flatMap_of_length (fun _ => List.length_map _), List.length_range]

theorem mem_rowMajorCells {c : Cell} : c ∈ rowMajorCells vertices m ↔
    ∃ line < m - 1, ∃ column < m - 1, cell vertices m line column = c := by
  simp [rowMajorCells]

theorem pairwise_rowMajorCells (vertices : Array Vertex) (m : Nat) :
    (rowMajorCells vertices m).Pairwise (·.corners.1 < ·.corners.1) := by
  rw [rowMajorCells, List.pairwise_flatMap]
  constructor
  · intro line _
    rw [List.pairwise_map]
    exact List.pairwise_lt_range.imp fun h => Nat.add_lt_add_left h _
  · refine List.pairwise_lt_range.imp fun {line later} h c hc d hd => ?_
    obtain ⟨column, hcolumn, rfl⟩ := List.mem_map.mp hc
    obtain ⟨other, -, rfl⟩ := List.mem_map.mp hd
    have rows : (line + 1) * m ≤ later * m := Nat.mul_le_mul_right m h
    rw [Nat.succ_mul] at rows
    have := List.mem_range.mp hcolumn
    change line * m + column < later * m + other
    omega

theorem count_corners_rowMajorCells {line column : Nat} (hl : line < m - 1) (hc : column < m - 1) :
    ((rowMajorCells vertices m).map (·.corners)).count (cornersAt m line column) = 1 := by
  have distinct : ((rowMajorCells vertices m).map (·.corners)).Nodup := by
    refine List.pairwise_map.mpr ((pairwise_rowMajorCells vertices m).imp fun h eq => ?_)
    exact Nat.ne_of_lt h (congrArg Prod.fst eq)
  apply List.count_eq_one_of_mem distinct
  exact List.mem_map.mpr ⟨_, mem_rowMajorCells.mpr ⟨line, hl, column, hc, rfl⟩, rfl⟩

theorem paintingOrder_perm (cells : List Cell) : (paintingOrder cells).Perm cells :=
  List.mergeSort_perm cells _

/-- The order of painting: from the back to the front, and row by row at equal depths. -/
def Before (c d : Cell) : Prop :=
  totalOrder c.depth < totalOrder d.depth ∨
    totalOrder c.depth = totalOrder d.depth ∧ c.corners.1 < d.corners.1

theorem pairwise_paintingOrder (h : cells.Pairwise (·.corners.1 < ·.corners.1)) :
    (paintingOrder cells).Pairwise Before := by
  unfold Before
  simp only [← orderKey_eq_totalOrder]
  exact pairwise_mergeSort_of_rank h

theorem length_triangles (p : Preview) : p.triangles.length = p.cells.length * 2 :=
  length_flatMap_of_length (fun _ => by rfl) p.cells

theorem getElem?_triangles {p : Preview} {i : Nat} {c : Cell} (h : p.cells[i]? = some c) :
    p.triangles[i * 2]? = some (c.corners.1, c.corners.2.1, c.corners.2.2.2) ∧
    p.triangles[i * 2 + 1]? = some (c.corners.1, c.corners.2.2.2, c.corners.2.2.1) := by
  have painted {j : Nat} (hj : j < 2) : p.triangles[i * 2 + j]? = c.triangles[j]? :=
    getElem?_flatMap_of_length (fun _ => by rfl) h hj
  exact ⟨painted (by decide : 0 < 2), painted (by decide : 1 < 2)⟩

theorem lt_pointCount {l c : Nat} (square : side * side = s.pointCount) (pos : 0 < side)
    (hl : l ∈ lines side) (hc : c ∈ lines side) : l * side + c < s.pointCount := by
  have row := Nat.mul_le_mul_right side (Nat.succ_le_of_lt (lt_of_mem_lines pos hl))
  have column := lt_of_mem_lines pos hc
  rw [Nat.succ_mul] at row
  omega

/-- The preview is the mesh over the displayed lines of a surface with the given points on a side. -/
structure IsMesh (o : Orientation) (mode : Mode) (palette : Palette) (s : Surface Float32)
    (side : Nat) (ls : List Nat) (p : Preview) : Prop where
  selection : IsSelection side ls
  /-- The numbers of the vertices fit a word of 32 bits. -/
  small : ls.length * ls.length < 2 ^ 32
  size : p.vertices.size = ls.length * ls.length
  vertex : ∀ a b l c, ls[a]? = some l → ls[b]? = some c →
    ∃ v, p.vertices[a * ls.length + b]? = some v ∧ StandsOn o mode palette s (l * side + c) v
  cellCount : p.cells.length = (ls.length - 1) * (ls.length - 1)
  once : ∀ line < ls.length - 1, ∀ column < ls.length - 1,
    (p.cells.map (·.corners)).count (cornersAt ls.length line column) = 1
  depth : ∀ c ∈ p.cells, c.MeanDepth p.vertices
  order : p.cells.Pairwise Before
  triangleCount : p.triangles.length = p.cells.length * 2
  triangles : ∀ i c, p.cells[i]? = some c →
    p.triangles[i * 2]? = some (c.corners.1, c.corners.2.1, c.corners.2.2.2) ∧
    p.triangles[i * 2 + 1]? = some (c.corners.1, c.corners.2.2.2, c.corners.2.2.1)

theorem side?_eq_some_iff : side? s = some side ↔
    0 < side ∧ side * side = s.pointCount ∧ s.positions.size = 3 * s.pointCount := by
  unfold side?
  constructor
  · intro h
    simp only [Option.ite_none_right_eq_some, Bool.and_eq_true, decide_eq_true_eq, beq_iff_eq,
      Option.some.injEq] at h
    obtain ⟨⟨⟨points, square⟩, triples⟩, rfl⟩ := h
    refine ⟨Nat.pos_of_ne_zero fun none => ?_, square, triples⟩
    rw [none] at square
    omega
  · rintro ⟨pos, square, triples⟩
    have root : s.pointCount.sqrt = side := square ▸ Nat.sqrt_eq side
    have points : 0 < s.pointCount := square ▸ Nat.mul_pos pos pos
    simp [root, points, square, triples]

theorem side?_eq_none_iff : side? s = none ↔ s.pointCount = 0 ∨
    (∀ c, c * c ≠ s.pointCount) ∨ s.positions.size ≠ 3 * s.pointCount := by
  rw [← not_iff_not, ← ne_eq, Option.ne_none_iff_exists']
  simp only [side?_eq_some_iff, not_or, not_forall, ne_eq, not_not]
  constructor
  · rintro ⟨c, pos, square, triples⟩
    exact ⟨square ▸ Nat.mul_ne_zero (Nat.ne_of_gt pos) (Nat.ne_of_gt pos), ⟨c, square⟩, triples⟩
  · rintro ⟨points, ⟨c, square⟩, triples⟩
    exact ⟨c, Nat.pos_of_ne_zero fun none => points (by rw [← square, none]), square, triples⟩

theorem isMesh_of_side? (h : side? s = some side) :
    ∃ preview, ofSurface? o mode palette s = some preview ∧
      IsMesh o mode palette s side (lines side) preview := by
  obtain ⟨pos, square, triples⟩ := side?_eq_some_iff.mp h
  refine ⟨_, by rw [ofSurface?, h, Option.map_some], ?_⟩
  have few := length_lines_le pos
  generalize hm : (lines side).length = m at few
  have size : (meshVertices o mode palette s side).toArray.size = m * m := by
    rw [List.size_toArray, length_meshVertices, hm]
  generalize hv : (meshVertices o mode palette s side).toArray = vertices at size
  have perm := paintingOrder_perm (rowMajorCells vertices m)
  refine ⟨selection_lines pos, ?_, hm ▸ size, fun a b l c hl hc => ?_, ?_, ?_, ?_,
    pairwise_paintingOrder (pairwise_rowMajorCells vertices m), length_triangles _,
    fun i c => getElem?_triangles⟩
  · have := Nat.mul_le_mul few few
    rw [hm]
    omega
  · refine ⟨_, ?_, standsOn_vertex triples (lt_pointCount square pos (List.mem_of_getElem? hl)
      (List.mem_of_getElem? hc))⟩
    rw [← hv, List.getElem?_toArray]
    exact getElem?_meshVertices hl hc
  · rw [hm, perm.length_eq, length_rowMajorCells]
  · intro line hl column hc
    rw [hm] at hl hc ⊢
    rw [(perm.map _).count_eq]
    exact count_corners_rowMajorCells hl hc
  · intro c there
    obtain ⟨line, hl, column, hc, rfl⟩ := mem_rowMajorCells.mp (perm.mem_iff.mp there)
    exact meanDepth_cell size hl hc

/-- Any square root that is exact on the squares takes the same buffers for those of a square. -/
theorem side?_eq_of_root {root : Nat → Nat} (exact : ∀ c, c * c < 2 ^ 52 → root (c * c) = c)
    (few : s.pointCount < 2 ^ 52) :
    side? s = if s.pointCount ≠ 0 ∧ root s.pointCount * root s.pointCount = s.pointCount ∧
      s.positions.size = 3 * s.pointCount then some (root s.pointCount) else none := by
  split
  next fits =>
    obtain ⟨points, square, triples⟩ := fits
    refine side?_eq_some_iff.mpr ⟨Nat.pos_of_ne_zero fun none => points ?_, square, triples⟩
    rw [← square, none]
  next misfit =>
    refine Option.eq_none_iff_forall_ne_some.mpr fun side h => misfit ?_
    obtain ⟨pos, square, triples⟩ := side?_eq_some_iff.mp h
    have found : root s.pointCount = side := square ▸ exact side (square ▸ few)
    exact ⟨square ▸ Nat.mul_ne_zero (Nat.ne_of_gt pos) (Nat.ne_of_gt pos), found ▸ square, triples⟩

/-- What is painted of any buffers: nothing of those that are not of a square, and else the mesh over
the displayed lines. The root may come from a machine as long as it is exact on the squares. -/
theorem ofSurface?_mesh (o : Orientation) (mode : Mode) (palette : Palette)
    (s : Surface Float32) :
    (ofSurface? o mode palette s = none ↔ s.pointCount = 0 ∨ (∀ c, c * c ≠ s.pointCount) ∨
      s.positions.size ≠ 3 * s.pointCount) ∧
    (∀ side preview, side * side = s.pointCount → ofSurface? o mode palette s = some preview →
      IsMesh o mode palette s side (lines side) preview) ∧
    ∀ root : Nat → Nat, (∀ c, c * c < 2 ^ 52 → root (c * c) = c) → s.pointCount < 2 ^ 52 →
      side? s = if s.pointCount ≠ 0 ∧ root s.pointCount * root s.pointCount = s.pointCount ∧
        s.positions.size = 3 * s.pointCount then some (root s.pointCount) else none := by
  refine ⟨?_, fun side preview square h => ?_, fun root => side?_eq_of_root⟩
  · rw [ofSurface?, Option.map_eq_none_iff, side?_eq_none_iff]
  · obtain ⟨root, hs, -⟩ := Option.map_eq_some_iff.mp h
    obtain ⟨pos, square', -⟩ := side?_eq_some_iff.mp hs
    obtain ⟨mesh, hm, isMesh⟩ := isMesh_of_side? (o := o) hs
    cases hm.symm.trans h
    cases Nat.mul_self_inj.mp (square'.trans square.symm)
    exact isMesh

/-- Of 500 points on a side 126 are shown: every fourth one, and the last one behind a step of three. -/
theorem ofSurface?_mesh_shorter_step : ∃ preview,
    ofSurface? ⟨0.0, 1.0, 0.0, 1.0⟩ .real .coloured
      ⟨.replicate 750000 0.0, .replicate 250000 0.0, 0⟩ = some preview ∧
    preview.vertices.size = 126 * 126 ∧ preview.triangles.length = 125 * 125 * 2 ∧
    side? ⟨.replicate 750000 0.0, .replicate 250000 0.0, 0⟩ = some 500 := by
  obtain ⟨nothing, mesh, machine⟩ := ofSurface?_mesh ⟨0.0, 1.0, 0.0, 1.0⟩ .real .coloured
    ⟨.replicate 750000 0.0, .replicate 250000 0.0, 0⟩
  have points : Surface.pointCount (S := Float32)
      ⟨.replicate 750000 0.0, .replicate 250000 0.0, 0⟩ = 250000 := Array.size_replicate
  have triples : (Array.replicate 750000 (0.0 : Float32)).size = 3 * 250000 := Array.size_replicate
  rw [points] at nothing mesh machine
  have painted := mt nothing.mp (by simpa [triples] using ⟨500, rfl⟩)
  obtain ⟨preview, h⟩ := Option.ne_none_iff_exists'.mp painted
  have isMesh := mesh 500 preview rfl h
  have shown : (lines 500).length = 126 := by decide +kernel
  refine ⟨preview, h, ?_, ?_, ?_⟩
  · rw [isMesh.size, shown]
  · rw [isMesh.triangleCount, isMesh.cellCount, shown]
  · have root : Nat.sqrt 250000 = 500 := Nat.sqrt_eq 500
    rw [machine Nat.sqrt (fun c _ => Nat.sqrt_eq c) (by decide), root, if_pos]
    exact ⟨by decide, rfl, triples⟩

end Preview
end Argand
