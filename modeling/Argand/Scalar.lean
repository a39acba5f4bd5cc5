namespace Argand

/-- The arithmetic, order and conversions that plotted coordinates need. Machine numbers round and
exact numbers do not; what is built on this class reads the same for both. -/
class Scalar (R : Type) extends Zero R, One R, Add R, Sub R, Mul R, Div R, Neg R, NatCast R,
    OfScientific R, BEq R, LT R, LE R where
  decidableLT : DecidableLT R
  decidableLE : DecidableLE R
  abs : R → R
  /-- Neither infinite nor undefined. -/
  isFinite : R → Bool
  /-- The sign as it is stored, so that a negative zero has one. -/
  signBit : R → Bool
  /-- The integer part of a positive number and zero for any other. Above the range of the machine
  word the largest word stands in. -/
  truncate : R → Nat
  /-- The remainder of the quotient cut toward zero, with the sign of the dividend. -/
  rem : R → R → R

namespace Scalar

variable {R : Type} [Scalar R]

@[inline] instance : DecidableLT R := decidableLT

@[inline] instance : DecidableLE R := decidableLE

/-- One divided by zero. -/
@[inline] def infinity : R := 1 / 0

/-- Zero divided by zero. -/
@[inline] def undefined : R := 0 / 0

/-- Only an undefined number differs from itself. -/
@[inline] def isUndefined (x : R) : Bool := !(x == x)

/-- The nearest number of the interval. An undefined number stays as it is. -/
@[inline] def clamp (low high x : R) : R :=
  if x < low then low else if high < x then high else x

/-- The remainder in `[0, |m|]`. The upper end is reached by rounding only. -/
@[inline] def remEuclid (x m : R) : R :=
  let r := rem x m
  if r < 0 then r + abs m else r

/-- The nearest natural number to a number that is not negative, a half going up. -/
@[inline] def roundHalfUp (x : R) : Nat :=
  let n := truncate x
  if 0.5 ≤ x - (n : R) then n + 1 else n

/-- The integer that `x` equals, if there is one of at most the given magnitude. -/
@[inline] def integer? (bound : Nat) (x : R) : Option Int :=
  let n := truncate (abs x)
  if n ≤ bound && (n : R) == abs x then some (if x < 0 then -(n : Int) else n) else none

end Scalar
end Argand
