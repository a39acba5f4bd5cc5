import Argand.Builtin

namespace Argand

/-- The operators between two operands. -/
inductive Operator
  | add | sub | mul | div | pow
deriving DecidableEq, Repr

namespace Operator

def symbol : Operator → String
  | add => "+"
  | sub => "-"
  | mul => "*"
  | div => "/"
  | pow => "^"

/-- An operator with a higher number binds tighter. The minus sign in front of an operand stands
between division and power. -/
def precedence : Operator → Nat
  | add | sub => 1
  | mul | div => 2
  | pow => 4

def isRightAssociative (op : Operator) : Bool := op == pow

end Operator

def negationPrecedence : Nat := 3

/-- The name under which the free variable is written. -/
def variableName : String := "z"

/-- The text of a literal: a real, an imaginary or a sum of the two. -/
def literalText (c : Complex Float) : String :=
  if c.im == 0.0 then floatText c.re
  else if c.re == 0.0 then floatText c.im ++ "i"
  else "(" ++ floatText c.re ++ " + " ++ floatText c.im ++ "i)"

namespace Postfix

/-- An item of a formula in postfix order, in which an operation follows its operands. -/
inductive Item (R : Type)
  | value (c : Complex R)
  /-- The free variable. -/
  | unknown
  | negate
  | binary (op : Operator)
  | call (f : Builtin)
deriving BEq, DecidableEq

namespace Item

def text : Item Float → String
  | value c => literalText c
  | unknown => variableName
  | negate => "neg"
  | binary op => op.symbol
  | call f => if f.arity = 1 then f.name else f.name ++ "/" ++ toString f.arity

end Item

/-- The texts of the items with one space between two of them. -/
def listText (items : List (Item Float)) : String := " ".intercalate (items.map Item.text)

end Postfix
end Argand
