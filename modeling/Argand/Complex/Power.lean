import Argand.Complex.Elementary

namespace Argand

/-- The accumulator times `base ^ n`, by squaring the base for every binary digit of the exponent.
The base is not squared after the last digit. -/
@[specialize] def mulPow {A : Type} [Mul A] (acc base : A) (n : Nat) : A :=
  if n = 0 then acc
  else
    let acc := if n % 2 = 1 then acc * base else acc
    if n / 2 = 0 then acc else mulPow acc (base * base) (n / 2)
termination_by n

namespace Complex

variable {R : Type} [Scalar R]

/-- The power with an integer exponent. The zeroth power is one, even of zero. -/
@[inline] def powInt (base : Complex R) (n : Int) : Complex R :=
  let power := mulPow 1 base n.natAbs
  if n < 0 then inverse power else power

/-- The largest integer exponent that is worked out by multiplication. -/
def maxIntegerExponent : Nat := 1024

/-- The principal power. -/
@[inline] def pow [Elementary R] (base exponent : Complex R) : Complex R :=
  if exponent.im == 0 then
    match Scalar.integer? maxIntegerExponent exponent.re with
    | some n => powInt base n
    | none => powReal base exponent.re
  else if base.isZero then 0
  else (exponent * base.log).exp

/-- The logarithm to a base of which the length alone counts. -/
@[inline] def logBase [Elementary R] (z base : Complex R) : Complex R :=
  divide z.log (ofReal (Elementary.log base.norm))

end Complex
end Argand
