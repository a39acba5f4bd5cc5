import Argand.Scalar.Machine

namespace Argand

/-- The directions from which a surface is looked at: a turn about the vertical, then a tilt. -/
structure Orientation where
  sinAzimuth : Float32
  cosAzimuth : Float32
  sinElevation : Float32
  cosElevation : Float32

namespace Orientation

def ofAngles (azimuth elevation : Float32) : Orientation :=
  ⟨azimuth.sin, azimuth.cos, elevation.sin, elevation.cos⟩

/-- To the right, up, and toward the eye. -/
def view (o : Orientation) (x y z : Float32) : Float32 × Float32 × Float32 :=
  let forward := o.sinAzimuth * x + o.cosAzimuth * z
  (o.cosAzimuth * x - o.sinAzimuth * z, o.cosElevation * y - o.sinElevation * forward,
    o.sinElevation * y + o.cosElevation * forward)

/-- How near to the eye a point is. -/
def depth (o : Orientation) (x y z : Float32) : Float32 := (o.view x y z).2.2

end Orientation

/-- A rectangle of the screen. -/
structure Viewport where
  x : Float32
  y : Float32
  width : Float32
  height : Float32

/-- The parallel projection to a rectangle of the screen. -/
structure Camera where
  orientation : Orientation
  centreX : Float32
  centreY : Float32
  scale : Float32

namespace Camera

/-- Units across the shorter side: the square with a margin for the height. -/
def visibleUnits : Float32 := 34.0

/-- The smaller of two numbers; an undefined one gives way. -/
def lesser (a b : Float32) : Float32 := if a ≤ b then a else if b.isNaN then a else b

def ofViewport (o : Orientation) (f : Viewport) : Camera :=
  let width := f.x + f.width - f.x
  let height := f.y + f.height - f.y
  ⟨o, f.x + width / 2.0, f.y + height / 2.0, lesser width height / visibleUnits⟩

/-- The point of the screen and the depth. -/
def project (c : Camera) (x y z : Float32) : Float32 × Float32 × Float32 :=
  let (right, up, depth) := c.orientation.view x y z
  (c.centreX + c.scale * right, c.centreY - c.scale * up, depth)

end Camera
end Argand
