import Argand.Decimal

namespace Argand

/-- The exponent part of a numeral. -/
structure Exponent where
  marker : Char
  sign : Option Char
  digits : List Char
deriving DecidableEq, Repr

/-- A numeral as it is written. -/
structure Numeral where
  whole : List Char
  /-- The digits after the point, if there is a point. -/
  fraction : Option (List Char)
  exponent : Option Exponent
deriving DecidableEq, Repr

/-- The number that a string of decimal digits stands for. -/
def natOfDigits (digits : List Char) : Nat :=
  digits.foldl (fun n c => 10 * n + (c.toNat - '0'.toNat)) 0

namespace Exponent

def toChars (e : Exponent) : List Char := e.marker :: (e.sign.toList ++ e.digits)

def toInt (e : Exponent) : Int :=
  if e.sign = some '-' then -(natOfDigits e.digits : Int) else natOfDigits e.digits

/-- An exponent without a digit is none. -/
def read? : List Char → Option Exponent
  | [] => none
  | marker :: rest =>
    if marker = 'e' || marker = 'E' then
      let sign := rest.head?.filter fun c => c = '+' || c = '-'
      let digits := (rest.drop sign.toList.length).takeWhile Char.isDigit
      if digits.isEmpty then none else some ⟨marker, sign, digits⟩
    else none

end Exponent

namespace Numeral

def toChars (n : Numeral) : List Char :=
  n.whole ++ (n.fraction.map ('.' :: ·)).getD [] ++ (n.exponent.map Exponent.toChars).getD []

def toDecimal (n : Numeral) : Decimal :=
  let fraction := n.fraction.getD []
  ⟨natOfDigits (n.whole ++ fraction), (n.exponent.map Exponent.toInt).getD 0 - fraction.length⟩

/-- A numeral starts with a digit, or with a point before one. -/
def startsAt (c : Char) (rest : List Char) : Bool :=
  c.isDigit || (c == '.' && rest.head?.any Char.isDigit)

/-- The longest numeral at the front of a text that starts with one. -/
def read (cs : List Char) : Numeral :=
  let whole := cs.takeWhile Char.isDigit
  let rest := cs.drop whole.length
  let fraction := if rest.head? = some '.' then some (rest.tail.takeWhile Char.isDigit) else none
  let rest := match fraction with
    | some digits => rest.tail.drop digits.length
    | none => rest
  ⟨whole, fraction, Exponent.read? rest⟩

end Numeral
end Argand
