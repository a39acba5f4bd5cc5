namespace Argand.Binary64

/-- The exponent of the unit in which the smallest numbers are counted. -/
def minExponent : Int := -1074

/-- The bits of positive infinity, next above those of the largest finite number. -/
def infinityBits : Nat := 0x7ff0000000000000

/-- The significand and the exponent of the magnitude of a finite number: it is `m * 2 ^ e`. -/
def decode (x : Float) : Nat × Int :=
  let bits := x.toBits.toNat % (1 <<< 63)
  let fraction := bits % (1 <<< 52)
  let exponent := bits >>> 52
  if exponent = 0 then (fraction, minExponent)
  else (fraction + (1 <<< 52), (exponent : Int) + minExponent - 1)

/-- The quotient `num / den` in units of `2 ^ e`, again as a quotient. -/
def inUnits (num den : Nat) (e : Int) : Nat × Nat :=
  if 0 ≤ e then (num, den <<< e.toNat) else (num <<< (-e).toNat, den)

/-- The nearest natural number to a quotient, a tie going to the even neighbour. -/
def roundQuotient (num den : Nat) : Nat :=
  let q := num / den
  match compare (2 * (num % den)) den with
  | .lt => q
  | .eq => q + q % 2
  | .gt => q + 1

/-- The exponent of the unit in which a quotient has 53 binary digits, or of the smallest unit. -/
def unitExponent (num den : Nat) : Int :=
  let e : Int := (num.log2 : Int) - den.log2 - 53
  let (n, d) := inUnits num den e
  max minExponent (if n / d < 1 <<< 53 then e else e + 1)

/-- The number nearest to a positive quotient. The bits of consecutive numbers are consecutive, so
that a rounded significand may carry into the exponent, and at last into infinity. -/
def ofQuotient (num den : Nat) : Float :=
  let e := unitExponent num den
  let (n, d) := inUnits num den e
  let bits := ((e - minExponent).toNat <<< 52) + roundQuotient n d
  Float.ofBits (min bits infinityBits).toUInt64

end Argand.Binary64
