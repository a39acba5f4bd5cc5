import Argand.Scalar

open Float.Model (Format UnpackedFloat)

namespace Argand

/-- The remainder is a multiple of the smaller unit below the divisor, so nothing is rounded. -/
def remainder (format : Format) : UnpackedFloat → UnpackedFloat → UnpackedFloat
  | .notANumber, _ | _, .notANumber | .infinity _, _ | _, .zero _ => .notANumber
  | .zero sign, _ => .zero sign
  | .finite sign m e h, .infinity _ => .finite sign m e h
  | .finite sign m e _, .finite _ m' e' _ =>
    let unit := min e e'
    let r := (m <<< (e - unit).toNat) % (m' <<< (e' - unit).toNat)
    .normalize format (sign.apply r) unit sign

/-- The nearest machine number. A small number takes the short way through a machine word. -/
@[inline] def floatOfNat (n : Nat) : Float :=
  if n < 0x10000 then n.toUInt64.toFloat else Float.ofNat n

instance : Scalar Float where
  zero := 0
  one := 1
  add := Float.add
  sub := Float.sub
  mul := Float.mul
  div := Float.div
  neg := Float.neg
  natCast := floatOfNat
  ofScientific := Float.ofScientific
  beq := Float.beq
  lt a b := a < b
  le a b := a ≤ b
  decidableLT a b := Float.decLt a b
  decidableLE a b := Float.decLe a b
  abs := Float.abs
  isFinite := Float.isFinite
  signBit x := x.toBits >>> 63 == 1
  truncate x := x.toUInt64.toNat
  rem x y :=
    if x.abs < y.abs then x
    else .ofModel (.pack (remainder .binary64 x.toModel.unpack y.toModel.unpack))

instance : Scalar Float32 where
  zero := 0
  one := 1
  add := Float32.add
  sub := Float32.sub
  mul := Float32.mul
  div := Float32.div
  neg := Float32.neg
  natCast := Float32.ofNat
  ofScientific := Float32.ofScientific
  beq := Float32.beq
  lt a b := a < b
  le a b := a ≤ b
  decidableLT a b := Float32.decLt a b
  decidableLE a b := Float32.decLe a b
  abs := Float32.abs
  isFinite := Float32.isFinite
  signBit x := x.toBits >>> 31 == 1
  truncate x := x.toUInt64.toNat
  rem x y :=
    if x.abs < y.abs then x
    else .ofModel (.pack (remainder .binary32 x.toModel.unpack y.toModel.unpack))

end Argand
