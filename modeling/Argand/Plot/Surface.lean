import Argand.Expr
import Argand.Plot.Grid

namespace Argand.Plot

/-- What to plot of an expression, and how finely. -/
structure Parameters where
  resolution : Nat
  mode : Mode
  logHeight : Bool
deriving DecidableEq, Repr

def defaultResolution : Nat := 10

def Parameters.default : Parameters := ⟨defaultResolution, .real, false⟩

/-- The buffers of a plot. -/
structure Surface (S : Type) where
  /-- The real part, the height and the imaginary part of one point after the other. -/
  positions : Array S
  /-- The colour of every point, before it becomes a hue. -/
  channels : Array S
  /-- The points with a value that had to be corrected. -/
  singularCount : Nat
deriving DecidableEq

namespace Surface

def empty {S : Type} : Surface S := ⟨#[], #[], 0⟩

def pointCount {S : Type} (s : Surface S) : Nat := s.channels.size

end Surface

/-- The entry of one point. -/
structure Sample (S : Type) where
  x : S
  height : S
  z : S
  channel : S
  singular : Bool

@[inline] def Surface.push {S : Type} (s : Surface S) (p : Sample S) : Surface S where
  positions := ((s.positions.push p.x).push p.height).push p.z
  channels := s.channels.push p.channel
  singularCount := if p.singular then s.singularCount + 1 else s.singularCount

variable {R S : Type} [Scalar R] [Elementary R] [Scalar S] [Narrowing R S]

/-- The signed logarithm of one plus the magnitude. -/
@[inline] def compressHeight (h : R) : R :=
  if h == 0 then 0
  else if h < 0 then -Elementary.log1p (Scalar.abs h)
  else Elementary.log1p (Scalar.abs h)

/-- The entry of a point with a value that may still be unbounded. -/
@[inline] def sampleOfValue (p : Parameters) (z value : Complex R) : Sample S :=
  let (w, fault) := value.bound
  let (height, channel) := p.mode.split S w
  let height := if p.logHeight then compressHeight height else height
  ⟨Narrowing.narrow z.re, Narrowing.narrow height, Narrowing.narrow z.im,
    Narrowing.narrow channel, fault.isSome⟩

/-- The entries of all points of a grid in the order of their indices. -/
@[specialize] def sweepGrid (w : Nat) (g : Grid) (p : Parameters) (x : Expr R) : Surface S :=
  let side := g.side w
  let half := g.segments w / 2
  (g.pointCount w).fold (fun index _ s =>
    let z := Grid.latticePoint side half g.resolution index
    s.push (sampleOfValue p z (x.eval z))) Surface.empty

/-- The plot of an expression on a machine with words of `w` bits. The buffers are reserved before
the first point. -/
@[specialize] def sweep (w : Nat) (p : Parameters) (x : Expr R) :
    Except (Failure ConfigurationError) (Surface S) :=
  match Grid.ofResolution p.resolution with
  | .error e => .error (.refused e)
  | .ok g => if g.Reservable w then .ok (sweepGrid w g p x) else .error .capacityOverflow

end Argand.Plot
