import Argand.Complex.Gamma

open Argand.Elementary (pi)

namespace Argand.Complex

variable {R : Type} [Scalar R]

/-- The terms of the series when their number is not given. -/
def defaultZetaTerms : Nat := 40

/-- The terms beyond this number are left out. -/
def maxZetaTerms : Nat := 200

/-- `Σ (-1)ᵏ C(n, k) qₖ` for `k ≤ n`, from index `k` on, added to the parts of a sum so far. The
binomial coefficient is carried from one term to the next. -/
@[specialize] def alternatingSum (n : Nat) : Nat → R → R → R → List (Complex R) → Complex R
  | _, _, re, im, [] => ⟨re, im⟩
  | k, binomial, re, im, q :: rest =>
    if n < k then ⟨re, im⟩
    else
      let sign : R := if k % 2 = 0 then 1 else -1
      let term := q * (sign * binomial)
      alternatingSum n (k + 1) (binomial * ((n - k : Nat) : R) / ((k + 1 : Nat) : R))
        (re + term.re) (im + term.im) rest

/-- The sum, over `n` below the number of the `qₖ`, of the alternating sums of their first `n + 1`,
each divided by `2ⁿ⁺¹`. -/
@[specialize] def eulerSum (qs : List (Complex R)) : Complex R :=
  let rec add (qs : List (Complex R)) : Nat → Nat → R → Complex R → Complex R
    | 0, _, _, sum => sum
    | rows + 1, n, scale, sum =>
      add qs rows (n + 1) (scale * 2.0)
        (sum + alternatingSum n 0 1 0 0 qs / scale)
  add qs qs.length 0 2.0 0

variable [Elementary R]

/-- The powers `(k + 1)⁻ˢ` for `k` below the number of terms. -/
@[specialize] def zetaPowers (s : Complex R) (terms : Nat) : List (Complex R) :=
  (List.range terms).map fun k => pow (ofReal ((k + 1 : Nat) : R)) (-s)

/-- The series in the right half-plane. -/
@[specialize] def zetaSeries (s : Complex R) (terms : Nat) : Complex R :=
  divide (eulerSum (zetaPowers s terms)) (1 - pow (ofReal 2.0) (1 - s))

@[inline] def isZetaPole (s : Complex R) : Bool := s == 1

/-- The zeta function, with at most the given number of passes through the functional equation. -/
@[specialize] def zetaWithin (reflections : Nat) (s : Complex R) (terms : Nat) : Complex R :=
  if isZetaPole s then ofReal Scalar.infinity
  else
    match reflections, decide (s.re < 0) with
    | n + 1, true =>
      pow (ofReal 2.0) s * pow (ofReal pi) (s - (1 : R)) * sin (s * (pi / 2.0 : R)) *
        gamma (1 - s) * zetaWithin n (1 - s) terms
    | _, _ => zetaSeries s terms

@[specialize] def zetaOfTerms (s : Complex R) (terms : Nat) : Complex R :=
  zetaWithin 1 s (min terms maxZetaTerms)

@[specialize] def zeta (s : Complex R) : Complex R := zetaOfTerms s defaultZetaTerms

end Argand.Complex
