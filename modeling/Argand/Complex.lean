import Argand.Scalar

namespace Argand

/-- A point of the complex plane. -/
structure Complex (R : Type) where
  re : R
  im : R
deriving BEq, DecidableEq

namespace Complex

variable {R : Type} [Scalar R]

@[inline] def ofReal (x : R) : Complex R := ⟨x, 0⟩

/-- The imaginary unit. -/
@[inline] def unit : Complex R := ⟨0, 1⟩

@[inline] def conj (z : Complex R) : Complex R := ⟨z.re, -z.im⟩

@[inline] def isZero (z : Complex R) : Bool := z.re == 0 && z.im == 0

@[inline] def isFinite (z : Complex R) : Bool := Scalar.isFinite z.re && Scalar.isFinite z.im

instance : Zero (Complex R) := ⟨ofReal 0⟩

instance : One (Complex R) := ⟨ofReal 1⟩

@[inline] instance : Neg (Complex R) := ⟨fun z => ⟨-z.re, -z.im⟩⟩

@[inline] instance : Add (Complex R) := ⟨fun z w => ⟨z.re + w.re, z.im + w.im⟩⟩

@[inline] instance : Sub (Complex R) := ⟨fun z w => ⟨z.re - w.re, z.im - w.im⟩⟩

@[inline] instance : Mul (Complex R) :=
  ⟨fun z w => ⟨z.re * w.re - z.im * w.im, z.re * w.im + z.im * w.re⟩⟩

/-- The product with the conjugate, divided by the squared length. -/
@[inline] instance : Div (Complex R) := ⟨fun z w =>
  let n := w.re * w.re + w.im * w.im
  ⟨(z.re * w.re + z.im * w.im) / n, (z.im * w.re - z.re * w.im) / n⟩⟩

/-! A real operand acts on the parts one by one, and a real summand on the real part alone. -/

@[inline] instance : HAdd (Complex R) R (Complex R) := ⟨fun z x => ⟨z.re + x, z.im⟩⟩

@[inline] instance : HSub (Complex R) R (Complex R) := ⟨fun z x => ⟨z.re - x, z.im⟩⟩

@[inline] instance : HMul (Complex R) R (Complex R) := ⟨fun z x => ⟨z.re * x, z.im * x⟩⟩

@[inline] instance : HDiv (Complex R) R (Complex R) := ⟨fun z x => ⟨z.re / x, z.im / x⟩⟩

/-- Division in which a zero divisor sends each part of the dividend to infinity on its own, so that
the direction of the dividend is kept. -/
@[inline] def divide (z w : Complex R) : Complex R :=
  if w.isZero then z / (0 : R) else z / w

@[inline] def inverse (z : Complex R) : Complex R := divide 1 z

end Complex
end Argand
