import Argand.Builtin
import Argand.Complex.Polygamma
import Argand.Complex.Zeta

namespace Argand.Builtin

variable {R : Type} [Scalar R] [Elementary R]

/-- The angle in `(-π, π]`: the lower side of the cut counts as the upper one. -/
@[inline] def angle (z : Complex R) : R :=
  let t := z.arg
  if t == -Elementary.pi then Elementary.pi else t

/-- The value of a function; only a function of two arguments looks at the second. An order or a
number of terms is the integer part of a length. -/
@[specialize] def apply (f : Builtin) (a b : Complex R) : Complex R :=
  match f with
  | sin => a.sin
  | cos => a.cos
  | tan => a.tan
  | csc => a.sin.inverse
  | sec => a.cos.inverse
  | cot => a.tan.inverse
  | sinh => a.sinh
  | cosh => a.cosh
  | tanh => a.tanh
  | csch => a.sinh.inverse
  | sech => a.cosh.inverse
  | coth => a.tanh.inverse
  | asin => a.asin
  | acos => a.acos
  | atan => a.atan
  | acsc => a.inverse.asin
  | asec => a.inverse.acos
  | acot => a.inverse.atan
  | asinh => a.asinh
  | acosh => a.acosh
  | atanh => a.atanh
  | acsch => a.inverse.asinh
  | asech => a.inverse.acosh
  | acoth => a.inverse.atanh
  | exp => a.exp
  | log => a.log
  | logBase => a.logBase b
  | sqrt => a.sqrt
  | cbrt => a.cbrt
  | conj => a.conj
  | inverse => a.inverse
  | re => .ofReal a.re
  | im => .ofReal a.im
  | abs => .ofReal a.norm
  | arg => .ofReal (angle a)
  | gamma => a.gamma
  | logGamma => a.logGamma
  | digamma => a.digamma
  | trigamma => a.polygamma 1
  | polygamma => a.polygamma (Scalar.truncate b.norm)
  | zeta => a.zeta
  | zetaOfTerms => a.zetaOfTerms (Scalar.truncate b.norm)

end Argand.Builtin
