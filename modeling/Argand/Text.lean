namespace Argand

/-- The characters that Unicode calls white space. -/
def isBlank (c : Char) : Bool :=
  let n := c.toNat
  (9 ≤ n && n ≤ 13) || n == 0x20 || n == 0x85 || n == 0xa0 || n == 0x1680 ||
    (0x2000 ≤ n && n ≤ 0x200a) || n == 0x2028 || n == 0x2029 || n == 0x202f || n == 0x205f ||
    n == 0x3000

/-- The characters between the first and the last that are not blank. -/
def trimBlank (cs : List Char) : List Char :=
  ((cs.dropWhile isBlank).reverse.dropWhile isBlank).reverse

/-- The characters of a name after its first one. -/
def isNameChar (c : Char) : Bool := c.isAlphanum || c == '_'

/-- Names are made of unaccented letters. One sign outside them, the Kelvin sign, has such a letter
as its lower case. -/
def lowerChar (c : Char) : Char := if c == '\u212a' then 'k' else c.toLower

/-- A value with the index, counted in characters, of its first character in the text. -/
structure Located (α : Type) where
  value : α
  position : Nat
deriving DecidableEq, Repr

end Argand
