import Argand.Complex.Power

open Argand.Elementary (pi)

namespace Argand.Complex

variable {R : Type} [Scalar R] [Elementary R]

def lanczosShift : Nat := 7

@[specialize] def lanczosCoefficients : List R :=
  [676.5203681218851, -1259.1392167224028, 771.3234287776531, -176.6150291621406,
    12.507343278686905, -0.13857109526572012, 9.984369578019572e-6, 1.5056327351493116e-7]

/-- The sum of the coefficients over `z + 1`, `z + 2`, … -/
@[specialize] def lanczosSum (z : Complex R) : Complex R :=
  let rec add (k : Nat) (sum : Complex R) : List R → Complex R
    | [] => sum
    | p :: rest => add (k + 1) (sum + divide (ofReal p) (z + (k : R))) rest
  add 1 (ofReal 0.9999999999998099) lanczosCoefficients

/-- Reflection takes the left half-plane `re z < 1/2` to the right one. -/
@[inline] def needsReflection (z : Complex R) : Bool := decide (z.re < 0.5)

/-- The gamma function, with at most the given number of reflections. -/
@[specialize] def gammaWithin (reflections : Nat) (z : Complex R) : Complex R :=
  match reflections, needsReflection z with
  | n + 1, true => divide (ofReal pi) (sin (z * (pi : R)) * gammaWithin n (1 - z))
  | _, _ =>
    let z := z - (1 : R)
    let t := z + ((lanczosShift : R) + 0.5)
    let scale : R := Elementary.sqrt (2.0 * pi)
    pow t (z + (0.5 : R)) * scale * (-t).exp * lanczosSum z

@[specialize] def gamma (z : Complex R) : Complex R := gammaWithin 1 z

/-- The logarithm of the gamma function, with at most the given number of reflections. -/
@[specialize] def logGammaWithin (reflections : Nat) (z : Complex R) : Complex R :=
  match reflections, needsReflection z with
  | n + 1, true =>
    ofReal (Elementary.log pi) - (sin (z * (pi : R))).log - logGammaWithin n (1 - z)
  | _, _ =>
    let z := z - (1 : R)
    let t := z + ((lanczosShift : R) + 0.5)
    ofReal (0.5 * Elementary.log (2.0 * pi)) + (z + (0.5 : R)) * t.log - t + (lanczosSum z).log

/-- It is finite where the gamma function itself exceeds every machine number. -/
@[specialize] def logGamma (z : Complex R) : Complex R := logGammaWithin 1 z

end Argand.Complex
