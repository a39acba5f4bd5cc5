import Argand.Complex.Power

namespace Argand.Complex

variable {R : Type} [Scalar R]

/-- The product of `count` consecutive numbers from `start` on, multiplied in rising order. -/
@[specialize] def risingProduct (start count : Nat) : R :=
  (List.range' start count).foldl (fun product (k : Nat) => product * (k : R)) 1

@[inline] def factorial (n : Nat) : R := risingProduct 1 n

/-- The Bernoulli numbers of index 2, 4, … 14. -/
@[specialize] def bernoulliNumbers : List R :=
  [1 / 6.0, -1 / 30.0, 1 / 42.0, -1 / 30.0, 5.0 / 66.0, -691.0 / 2730.0, 7.0 / 6.0]

@[inline] def alternatingSign (n : Nat) : R := if n % 2 = 0 then 1 else -1

/-- The orders beyond this one are taken down to it. -/
def maxPolygammaOrder : Nat := 255

/-- The steps of one that an argument may be away from the asymptotic region. -/
def maxPolygammaShifts : Nat := 10000

section Asymptotic

variable {A : Type} [Mul A] [Add A] [Sub A] [HMul A R A]

/-- The coefficient of `z⁻²ᵏ⁻ⁿ`, for `k = i + 1`, in the tail of order `n`, sign aside. -/
@[specialize] def tailCoefficient (n i : Nat) (bernoulli : R) : R :=
  if n = 0 then bernoulli / ((2 * (i + 1) : Nat) : R)
  else bernoulli * risingProduct (2 * (i + 1) + 1) (n - 1)

/-- The terms are the products of the powers `p·q, p·q², …` with their coefficients. -/
@[specialize] def foldTail (n : Nat) (combine : A → A → A) (square : A) :
    Nat → A → A → List R → A
  | _, _, sum, [] => sum
  | i, power, sum, b :: rest =>
    let power := power * square
    foldTail n combine square (i + 1) power (combine sum (power * tailCoefficient n i b)) rest

/-- `log z - 1/(2z) - Σ B₂ₖ / (2k z²ᵏ)`, from the inverse and the logarithm of `z`. -/
@[specialize] def digammaTail [One A] (log inverse : A) : A :=
  foldTail 0 (· - ·) (inverse * inverse) 0 1 (log - inverse * (0.5 : R)) (bernoulliNumbers (R := R))

/-- `(-1)ⁿ⁺¹ ((n-1)!/zⁿ + n!/(2zⁿ⁺¹) + Σ B₂ₖ (2k+n-1)!/(2k)! / z²ᵏ⁺ⁿ)` for `n ≥ 1`, from the inverse
of `z`. -/
@[specialize] def polygammaTail [One A] (n : Nat) (inverse : A) : A :=
  let base := mulPow 1 inverse n
  let leading := base * (factorial (n - 1) : R) + base * inverse * ((factorial n : R) / 2.0)
  foldTail n (· + ·) (inverse * inverse) 0 base leading (bernoulliNumbers (R := R)) *
    (-alternatingSign n : R)

end Asymptotic

/-- `(-1)ⁿ n! / zⁿ⁺¹`, by which the values at `z` and `z + 1` differ. -/
@[inline] def shiftTerm (n : Nat) (z : Complex R) : Complex R :=
  powInt z (-((n : Int) + 1)) * (alternatingSign n * factorial n : R)

/-- Steps of one to the right until the real part reaches the threshold, with the sum that has been
taken off on the way. -/
@[specialize] def shiftUp (n : Nat) (threshold : R) :
    Nat → Complex R → Complex R → Complex R × Complex R
  | 0, z, acc => (z, acc)
  | steps + 1, z, acc =>
    if z.re < threshold then
      shiftUp n threshold steps (z + (1 : R)) (acc - shiftTerm n z)
    else (z, acc)

variable [Elementary R]

/-- The asymptotic expansion of order `n`. -/
@[inline] def asymptotic (n : Nat) (z : Complex R) : Complex R :=
  if n = 0 then digammaTail (R := R) z.log z.inverse else polygammaTail (R := R) n z.inverse

/-- The derivative of order `n` of the digamma function. Arguments too far to the left, and those
that are not finite, have no value. -/
@[specialize] def polygamma (z : Complex R) (order : Nat) : Complex R :=
  if !z.isFinite then ⟨Scalar.undefined, Scalar.undefined⟩
  else
    let n := min order maxPolygammaOrder
    let threshold : R := 10.0 + (n : R)
    if (maxPolygammaShifts : R) < threshold - z.re then ⟨Scalar.undefined, Scalar.undefined⟩
    else
      let (z, acc) := shiftUp n threshold maxPolygammaShifts z 0
      acc + asymptotic n z

@[specialize] def digamma (z : Complex R) : Complex R := polygamma z 0

end Argand.Complex
