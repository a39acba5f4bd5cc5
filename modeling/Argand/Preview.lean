import Argand.Camera
import Argand.Colour
import Argand.Plot.Surface

namespace Argand

/-- A corner of the mesh, with the height that is shown. -/
structure Vertex where
  x : Float32
  height : Float32
  z : Float32
  colour : Colour
  depth : Float32

/-- Four corners by their numbers: two of a line, then two of the next. -/
structure Cell where
  depth : Float32
  corners : Nat × Nat × Nat × Nat

/-- The corners of the two triangles of a cell, on both sides of its diagonal. -/
def Cell.triangles (c : Cell) : List (Nat × Nat × Nat) :=
  let (c00, c01, c10, c11) := c.corners
  [(c00, c01, c11), (c00, c11, c10)]

/-- The mesh that is painted, its cells from the back to the front. -/
structure Preview where
  vertices : Array Vertex
  cells : List Cell

namespace Preview

/-- The triangles in the order in which they are painted. -/
def triangles (p : Preview) : List (Nat × Nat × Nat) := p.cells.flatMap Cell.triangles

/-- Higher points are cut off on the screen. -/
def maxHeight : Float32 := 10.0

/-- With more cells than this on a side, lines are left out. -/
def maxCells : Nat := 120

/-- The steps between displayed lines of a grid with the given points on a side. -/
def stride (side : Nat) : Nat := max 1 ((side - 1) / maxCells)

/-- The displayed lines: one of every so many from the first on, and always the last. -/
def lines (side : Nat) : List Nat :=
  let regular := List.range' 0 ((side + stride side - 1) / stride side) (stride side)
  if regular.getLast? = some (side - 1) then regular else regular ++ [side - 1]

/-- The bits as a signed integer, in the order of the numbers; a negative zero comes before
a positive one. -/
def orderKey (x : Float32) : Int :=
  let bits := x.toBits.toNat
  if bits < 0x80000000 then bits else 0x7fffffff - (bits : Int)

def vertex (o : Orientation) (mode : Plot.Mode) (palette : Palette) (s : Plot.Surface Float32)
    (index : Nat) : Vertex :=
  let x := s.positions[3 * index]?.getD 0.0
  let height := Scalar.clamp (-maxHeight) maxHeight (s.positions[3 * index + 1]?.getD 0.0)
  let z := s.positions[3 * index + 2]?.getD 0.0
  ⟨x, height, z, Plot.colour mode palette (s.channels[index]?.getD 0.0), o.depth x height z⟩

/-- The vertices line by line. -/
def meshVertices (o : Orientation) (mode : Plot.Mode) (palette : Palette) (s : Plot.Surface Float32)
    (side : Nat) : List Vertex :=
  let lines := lines side
  lines.flatMap fun l => lines.map fun c => vertex o mode palette s (l * side + c)

/-- The cell whose first corner is on the given displayed line and column. -/
def cell (vertices : Array Vertex) (count line column : Nat) : Cell :=
  let depth (k : Nat) : Float32 := (vertices[k]?.map (·.depth)).getD 0.0
  let first := line * count + column
  let second := (line + 1) * count + column
  ⟨(depth first + depth (first + 1) + depth second + depth (second + 1)) / 4.0,
    first, first + 1, second, second + 1⟩

/-- The cells of a mesh with the given number of lines, row by row. -/
def rowMajorCells (vertices : Array Vertex) (count : Nat) : List Cell :=
  (List.range (count - 1)).flatMap fun line =>
    (List.range (count - 1)).map fun column => cell vertices count line column

/-- Cells of equal depth keep their order. -/
def paintingOrder (cells : List Cell) : List Cell :=
  cells.mergeSort fun a b => orderKey a.depth ≤ orderKey b.depth

/-- The points of a side, if the buffers are those of a square. -/
def side? (s : Plot.Surface Float32) : Option Nat :=
  let side := s.pointCount.sqrt
  if 0 < s.pointCount && side * side == s.pointCount && s.positions.size == 3 * s.pointCount then
    some side
  else none

/-- The mesh of a surface. Nothing is painted of buffers that do not fit together. -/
def ofSurface? (o : Orientation) (mode : Plot.Mode) (palette : Palette)
    (s : Plot.Surface Float32) : Option Preview :=
  (side? s).map fun side =>
    let vertices := (meshVertices o mode palette s side).toArray
    ⟨vertices, paintingOrder (rowMajorCells vertices (lines side).length)⟩

end Preview
end Argand
