import Argand.Builtin.Apply
import Argand.Postfix

namespace Argand

/-- An expression in one free variable. -/
inductive Expr (R : Type)
  | literal (c : Complex R)
  /-- The free variable. -/
  | unknown
  | negate (x : Expr R)
  | binary (op : Operator) (x y : Expr R)
  | call (f : Builtin) (args : List (Expr R))
deriving BEq

namespace Operator

variable {R : Type} [Scalar R] [Elementary R]

@[inline] def apply (op : Operator) (a b : Complex R) : Complex R :=
  match op with
  | add => a + b
  | sub => a - b
  | mul => a * b
  | div => a.divide b
  | pow => a.pow b

end Operator

namespace Expr

/-- The function that is plotted when no formula can be read. -/
def identity {R : Type} : Expr R := unknown

/-- The value at a point. A call without arguments is applied to the point itself, and a missing
second argument is zero. -/
@[specialize] def eval {R : Type} [Scalar R] [Elementary R] (z : Complex R) : Expr R → Complex R
  | literal c => c
  | unknown => z
  | negate x => -x.eval z
  | binary op x y => op.apply (x.eval z) (y.eval z)
  | call f [] => f.apply z 0
  | call f [x] => f.apply (x.eval z) 0
  | call f (x :: y :: _) => f.apply (x.eval z) (y.eval z)

mutual

/-- The number of nodes. -/
def size {R : Type} : Expr R → Nat
  | literal _ | unknown => 1
  | negate x => 1 + x.size
  | binary _ x y => 1 + x.size + y.size
  | call _ args => 1 + sizeOfList args

def sizeOfList {R : Type} : List (Expr R) → Nat
  | [] => 0
  | x :: rest => x.size + sizeOfList rest

end

mutual

/-- The number of levels. -/
def depth {R : Type} : Expr R → Nat
  | literal _ | unknown => 1
  | negate x => x.depth + 1
  | binary _ x y => max x.depth y.depth + 1
  | call _ args => depthOfList args + 1

def depthOfList {R : Type} : List (Expr R) → Nat
  | [] => 0
  | x :: rest => max x.depth (depthOfList rest)

end

mutual

/-- The items in postfix order. -/
def postorder {R : Type} : Expr R → List (Postfix.Item R)
  | literal c => [.value c]
  | unknown => [.unknown]
  | negate x => x.postorder ++ [.negate]
  | binary op x y => x.postorder ++ y.postorder ++ [.binary op]
  | call f args => postorderOfList args ++ [.call f]

def postorderOfList {R : Type} : List (Expr R) → List (Postfix.Item R)
  | [] => []
  | x :: rest => x.postorder ++ postorderOfList rest

end

mutual

/-- The text in front of `rest`, with parentheses around every operation. -/
def write : Expr Float → List Char → List Char
  | literal c, rest => (literalText c).toList ++ rest
  | unknown, rest => variableName.toList ++ rest
  | negate x, rest => '(' :: '-' :: x.write (')' :: rest)
  | binary op x y, rest =>
    '(' :: x.write (' ' :: (op.symbol.toList ++ ' ' :: y.write (')' :: rest)))
  | call f args, rest => f.name.toList ++ '(' :: writeArguments args (')' :: rest)

/-- The arguments in front of `rest`, with a comma and a space between two of them. -/
def writeArguments : List (Expr Float) → List Char → List Char
  | [], rest => rest
  | [x], rest => x.write rest
  | x :: y :: more, rest => x.write (',' :: ' ' :: writeArguments (y :: more) rest)

end

def text (x : Expr Float) : String := String.ofList (x.write [])

end Expr
end Argand
