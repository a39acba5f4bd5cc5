import Argand.Complex.Elementary

namespace Argand.Complex

variable {R : Type} [Scalar R]

/-- The largest magnitude that is plotted. -/
@[inline] def limit : R := 1e9

/-- What had to be corrected in a computed value. -/
inductive Fault
  /-- A part is infinite or undefined. -/
  | notFinite
  /-- Both parts are finite and one is beyond the limit. -/
  | outOfRange
deriving DecidableEq, Repr

/-- The nearest number within the limit. An undefined number becomes the limit itself. -/
@[inline] def bounded (x : R) : R :=
  if Scalar.isUndefined x then limit else Scalar.clamp (-limit) limit x

@[inline] def fault? (z : Complex R) : Option Fault :=
  if !z.isFinite then some .notFinite
  else if limit < Scalar.abs z.re || limit < Scalar.abs z.im then some .outOfRange
  else none

/-- The value within the limit, with what had to be corrected. -/
@[inline] def bound (z : Complex R) : Complex R × Option Fault :=
  match z.fault? with
  | none => (z, none)
  | some fault => (⟨bounded z.re, bounded z.im⟩, some fault)

/-- The angle in turns, in `[0, 1)`. A turn that rounds up to a full one, when it is computed or
when it is stored, is none at all. -/
@[inline] def turn (S : Type) [Scalar S] [Narrowing R S] [Elementary R] (z : Complex R) : R :=
  let t := z.arg / (2.0 * Elementary.pi)
  let t := if t < 0 then t + 1 else t
  if 1 ≤ (Narrowing.narrow t : S) then 0 else t

end Argand.Complex
