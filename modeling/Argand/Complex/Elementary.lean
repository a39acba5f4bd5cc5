import Argand.Complex
import Argand.Elementary

open Argand.Elementary (pi)

namespace Argand.Complex

variable {R : Type} [Scalar R] [Elementary R]

@[inline] def norm (z : Complex R) : R := Elementary.hypot z.re z.im

/-- The principal angle, in `[-π, π]`; the cut runs along the negative real axis and the sign of a
zero ordinate tells its two sides apart. -/
@[inline] def arg (z : Complex R) : R := Elementary.atan2 z.im z.re

@[inline] def ofPolar (length angle : R) : Complex R :=
  ⟨length * Elementary.cos angle, length * Elementary.sin angle⟩

@[inline] def log (z : Complex R) : Complex R := ⟨Elementary.log z.norm, z.arg⟩

/-- An infinite real part leaves no direction unless the imaginary part is finite, and then only
when the length is not zero. -/
@[inline] def exp (z : Complex R) : Complex R :=
  let infinite := !Scalar.isFinite z.re && !Scalar.isUndefined z.re
  if infinite && z.re < 0 && !Scalar.isFinite z.im then 0
  else if infinite && 0 < z.re && (z.im == 0 || !Scalar.isFinite z.im) then
    ⟨z.re, if z.im == 0 then z.im else Scalar.undefined⟩
  else if Scalar.isUndefined z.re && z.im == 0 then z
  else ofPolar (Elementary.exp z.re) z.im

/-- The number with the stored sign of another. -/
@[inline] def signed (source x : R) : R := if Scalar.signBit source then -x else x

@[inline] def sqrt (z : Complex R) : Complex R :=
  if z.im == 0 then
    if Scalar.signBit z.re then ⟨0, signed z.im (Elementary.sqrt (-z.re))⟩
    else ⟨Elementary.sqrt z.re, z.im⟩
  else if z.re == 0 then
    let x := Elementary.sqrt (Scalar.abs z.im / 2.0)
    ⟨x, signed z.im x⟩
  else ofPolar (Elementary.sqrt z.norm) (z.arg / 2.0)

@[inline] def cbrt (z : Complex R) : Complex R :=
  if z.im == 0 then
    if Scalar.signBit z.re then
      let re := Elementary.cbrt (-z.re) / 2.0
      ⟨re, signed z.im (Elementary.sqrt 3.0 * re)⟩
    else ⟨Elementary.cbrt z.re, z.im⟩
  else if z.re == 0 then
    let im := Elementary.cbrt (Scalar.abs z.im) / 2.0
    ⟨Elementary.sqrt 3.0 * im, signed z.im im⟩
  else ofPolar (Elementary.cbrt z.norm) (z.arg / 3.0)

/-- The principal power with a real exponent. -/
@[inline] def powReal (z : Complex R) (x : R) : Complex R :=
  if x == 0 then 1 else ofPolar (Elementary.pow z.norm x) (z.arg * x)

@[specialize] def sin (z : Complex R) : Complex R :=
  ⟨Elementary.sin z.re * Elementary.cosh z.im, Elementary.cos z.re * Elementary.sinh z.im⟩

@[specialize] def cos (z : Complex R) : Complex R :=
  ⟨Elementary.cos z.re * Elementary.cosh z.im, -Elementary.sin z.re * Elementary.sinh z.im⟩

@[specialize] def tan (z : Complex R) : Complex R :=
  let x := z.re + z.re
  let y := z.im + z.im
  (⟨Elementary.sin x, Elementary.sinh y⟩ : Complex R) / (Elementary.cos x + Elementary.cosh y)

@[specialize] def sinh (z : Complex R) : Complex R :=
  ⟨Elementary.sinh z.re * Elementary.cos z.im, Elementary.cosh z.re * Elementary.sin z.im⟩

@[specialize] def cosh (z : Complex R) : Complex R :=
  ⟨Elementary.cosh z.re * Elementary.cos z.im, Elementary.sinh z.re * Elementary.sin z.im⟩

@[specialize] def tanh (z : Complex R) : Complex R :=
  let x := z.re + z.re
  let y := z.im + z.im
  (⟨Elementary.sinh x, Elementary.sin y⟩ : Complex R) / (Elementary.cosh x + Elementary.cos y)

@[specialize] def asin (z : Complex R) : Complex R := -unit * (sqrt (1 - z * z) + unit * z).log

@[specialize] def acos (z : Complex R) : Complex R := -unit * (unit * sqrt (1 - z * z) + z).log

@[specialize] def atan (z : Complex R) : Complex R :=
  if z == unit then ⟨0, Scalar.infinity⟩
  else if z == -unit then ⟨0, -Scalar.infinity⟩
  else ((1 + unit * z).log - (1 - unit * z).log) / (ofReal 2.0 * unit)

@[specialize] def asinh (z : Complex R) : Complex R := (z + sqrt (1 + z * z)).log

@[specialize] def acosh (z : Complex R) : Complex R :=
  let two := ofReal (2.0 : R)
  two * (sqrt ((z + (1 : Complex R)) / two) + sqrt ((z - (1 : Complex R)) / two)).log

@[specialize] def atanh (z : Complex R) : Complex R :=
  if z == 1 then ⟨Scalar.infinity, 0⟩
  else if z == -1 then ⟨-Scalar.infinity, 0⟩
  else ((1 + z).log - (1 - z).log) / ofReal (2.0 : R)

end Argand.Complex
