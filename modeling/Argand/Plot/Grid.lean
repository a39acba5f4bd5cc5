import Argand.Complex
import Argand.Plot.Mode

namespace Argand.Plot

/-- The square `[-10, 10]²`, cut so many times per unit. -/
structure Grid where
  resolution : Nat
  positive : 0 < resolution

namespace Grid

/-- Half of the side of the square. -/
def halfExtent : Nat := 10

def ofResolution (resolution : Nat) : Except ConfigurationError Grid :=
  if h : 0 < resolution then .ok ⟨resolution, h⟩ else .error .zeroResolution

/-! Sizes are words of a machine, of `w` bits, and wrap. -/

section sizes

variable (w : Nat) (g : Grid)

/-- The segments of a side. -/
def segmentsIn : BitVec w :=
  2 * BitVec.ofNat w halfExtent * BitVec.ofNat w g.resolution

/-- The points of a side. -/
def sideIn : BitVec w := g.segmentsIn w + 1

def pointCountIn : BitVec w := g.sideIn w * g.sideIn w

/-- The numbers that are stored of all points but their colours: three a point. -/
def positionCountIn : BitVec w := 3 * g.pointCountIn w

def segments : Nat := (g.segmentsIn w).toNat

def side : Nat := (g.sideIn w).toNat

def pointCount : Nat := (g.pointCountIn w).toNat

def positionCount : Nat := (g.positionCountIn w).toNat

/-- The bytes of a stored number. -/
def numberSize : Nat := 4

/-- A buffer has at most as many bytes as a signed word can count. -/
def maxBufferSize : Nat := (BitVec.intMax w).toNat

/-- Both buffers of a surface may be as large as they are asked for. -/
def Reservable : Prop :=
  numberSize * g.positionCount w ≤ maxBufferSize w ∧
    numberSize * g.pointCount w ≤ maxBufferSize w

instance : Decidable (g.Reservable w) := inferInstanceAs (Decidable (_ ∧ _))

end sizes

/-- The point with the given index on a lattice with `side` points in a row, `half` of its segments
on each side of an axis, and `resolution` segments per unit. The rows have the same real part. -/
@[inline] def latticePoint {R : Type} [Scalar R] (side half resolution index : Nat) : Complex R :=
  ⟨(((index / side : Nat) : R) - (half : R)) / (resolution : R),
    (((index % side : Nat) : R) - (half : R)) / (resolution : R)⟩

/-- The point with the given index, counted row by row. -/
@[specialize] def point {R : Type} [Scalar R] (w : Nat) (g : Grid) (index : Nat) : Complex R :=
  latticePoint (g.side w) (g.segments w / 2) g.resolution index

end Grid
end Argand.Plot
