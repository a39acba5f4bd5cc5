import Argand.Binary64
import Argand.Elementary

namespace Argand

/-- The integer cube root, by Newton's method from a guess that is not below it. -/
def natCubeRoot (n guess : Nat) : Nat :=
  let next := (2 * guess + n / (guess * guess)) / 3
  if next < guess then natCubeRoot n next else guess
termination_by guess

/-- The cube root, rounded to nearest. The integer root has two binary digits more than the result,
and an odd last one stands for all that follow. -/
def cubeRoot (x : Float) : Float :=
  let (m, e) := Binary64.decode x
  if m = 0 || !x.isFinite then x
  else
    let third := (e - (165 - (m.log2 : Int))) / 3
    let n := m <<< (e - 3 * third).toNat
    let root := natCubeRoot n (1 <<< (n.log2 / 3 + 1))
    let digits := if root * root * root = n then 2 * root else 2 * root + 1
    let y := Binary64.ofQuotient (digits <<< (third - 1).toNat) (1 <<< (1 - third).toNat)
    if x < 0.0 then -y else y

/-- The square root of a sum of two squares, `0 ≤ y ≤ x`, whose rounding error is then taken back
to first order. -/
def rootOfSquares (x y : Float) : Float :=
  let h := Float.sqrt (x * x + y * y)
  let error :=
    if h ≤ 2.0 * y then
      let d := h - y
      x * (2.0 * d - x) + (d - 2.0 * (x - y)) * d
    else
      let d := h - x
      2.0 * d * (x - 2.0 * y) + ((4.0 * d - y) * y + d * d)
  h - error / (2.0 * h)

/-- The power of two with the given exponent, for a normal result. -/
def twoTo (exponent : Int) : Float :=
  Float.ofBits ((exponent + 1023).toNat.toUInt64 <<< 52)

/-- Both legs are scaled by one power of two when a square would leave the range, and a leg that
cannot change the rounded length of the other is only added. -/
def hypotenuse (x y : Float) : Float :=
  let x := x.abs
  let y := y.abs
  if x.isInf || y.isInf then 1.0 / 0.0
  else if x.isNaN || y.isNaN then x + y
  else
    let long := if x < y then y else x
    let short := if x < y then x else y
    if short ≤ long * twoTo (-54) then long + short
    else if twoTo 511 < long then
      rootOfSquares (long * twoTo (-600)) (short * twoTo (-600)) * twoTo 600
    else if short < twoTo (-459) then
      rootOfSquares (long * twoTo 600) (short * twoTo 600) * twoTo (-600)
    else rootOfSquares long short

/-- The logarithm of the rounded sum, corrected by how much the sum was rounded. The product is
rounded once more, so that this is not monotone in the last place, near 7.269453459222111 for
example. -/
def logOfOnePlus (x : Float) : Float :=
  let u := 1.0 + x
  if u == 1.0 then x
  else if u.isFinite then u.log * (x / (u - 1.0))
  else u.log

instance : Elementary Float where
  pi := 3.141592653589793
  euler := 2.718281828459045
  sqrt := Float.sqrt
  cbrt := cubeRoot
  exp := Float.exp
  log := Float.log
  log1p := logOfOnePlus
  sin := Float.sin
  cos := Float.cos
  sinh := Float.sinh
  cosh := Float.cosh
  atan2 := Float.atan2
  hypot := hypotenuse
  pow := Float.pow

instance : Narrowing Float Float32 where
  narrow := Float.toFloat32

end Argand
