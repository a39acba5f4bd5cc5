import Argand.Binary64

namespace Argand

/-- The number `coefficient * 10 ^ exponent`. -/
structure Decimal where
  coefficient : Nat
  exponent : Int
deriving DecidableEq, Repr

namespace Decimal

/-- No machine number reaches this power of ten. -/
def overflowExponent : Int := 309

/-- Below half of the smallest machine number, by comparing powers of two: `10 ^ e ≤ 8 ^ e` for
a negative `e`. -/
def underflows (d : Decimal) : Bool :=
  d.exponent < 0 && (d.coefficient.log2 : Int) + 1 + 3 * d.exponent < -1075

/-- The nearest machine number. The powers of ten that are worked out are bounded by the length of
the coefficient. -/
def toFloat (d : Decimal) : Float :=
  if d.coefficient = 0 || d.underflows then 0.0
  else if overflowExponent ≤ d.exponent then 1.0 / 0.0
  else if 0 ≤ d.exponent then Binary64.ofQuotient (d.coefficient * Nat.pow 10 d.exponent.toNat) 1
  else Binary64.ofQuotient d.coefficient (Nat.pow 10 (-d.exponent).toNat)

/-- The decimals with the given exponent next to `num / den`, the nearer one first; of two equally
near ones the upper. -/
def neighbours (num den : Nat) (exponent : Int) : List Decimal :=
  let n := if 0 ≤ exponent then num else num * Nat.pow 10 (-exponent).toNat
  let d := if 0 ≤ exponent then den * Nat.pow 10 exponent.toNat else den
  let below : Decimal := ⟨n / d, exponent⟩
  let above : Decimal := ⟨n / d + 1, exponent⟩
  if d ≤ 2 * (n % d) then [above, below] else [below, above]

/-- The exact value of `m * 2 ^ e`. -/
def ofBinary (m : Nat) (e : Int) : Decimal :=
  if 0 ≤ e then ⟨m <<< e.toNat, 0⟩ else ⟨m * Nat.pow 5 (-e).toNat, e⟩

/-- Exponents from just above the leading digit of `m * 2 ^ e` down to its twentieth digit. -/
def searchExponents (m : Nat) (e : Int) : List Int :=
  let top := ((m.log2 : Int) + e) * 30103 / 100000 + 2
  (List.range 21).map fun i => top - (i : Nat)

/-- The decimal with the fewest digits that reads back as the magnitude of a finite number, the
nearest one among those. -/
def shortest (x : Float) : Decimal :=
  let x := x.abs
  let (m, e) := Binary64.decode x
  if m = 0 then ⟨0, 0⟩
  else
    let (num, den) := if 0 ≤ e then (m <<< e.toNat, 1) else (m, 1 <<< (-e).toNat)
    let candidates := (searchExponents m e).findSome? fun exponent =>
      (neighbours num den exponent).find? fun d => d.toFloat == x
    candidates.getD (ofBinary m e)

/-- The digits in positional notation, with a point only if the exponent is negative. -/
def toDigits (d : Decimal) : List Char :=
  let digits := Nat.toDigits 10 d.coefficient
  if 0 ≤ d.exponent then
    if d.coefficient = 0 then digits else digits ++ List.replicate d.exponent.toNat '0'
  else
    let places := (-d.exponent).toNat
    let padded := List.replicate (places + 1 - digits.length) '0' ++ digits
    padded.take (padded.length - places) ++ '.' :: padded.drop (padded.length - places)

end Decimal

/-- The text of a machine number: the shortest decimal that reads back, without an exponent. -/
def floatText (x : Float) : String :=
  if x.isNaN then "NaN"
  else
    let sign := if x.toBits >>> 63 == 1 then "-" else ""
    if x.isInf then sign ++ "inf" else sign ++ String.ofList (Decimal.shortest x).toDigits

end Argand
