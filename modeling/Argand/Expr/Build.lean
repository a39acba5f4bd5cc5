import Argand.Expr

namespace Argand.Expr

/-- A deeper expression is refused, so that walks over it need a bounded stack. -/
def maxDepth : Nat := 256

/-- An expression with more nodes is refused. -/
def maxSize : Nat := 200000

/-- The expressions that wait for an operation, the latest one first, each with its depth, and the
number of items read. -/
structure Builder where
  stack : List (Expr Float × Nat)
  count : Nat

namespace Builder

/-- Puts the operands of an item together, or finds too few of them. -/
def combine? (stack : List (Expr Float × Nat)) :
    Postfix.Item Float → Option ((Expr Float × Nat) × List (Expr Float × Nat))
  | .value c => some ((literal c, 1), stack)
  | .unknown => some ((.unknown, 1), stack)
  | .negate =>
    match stack with
    | (x, d) :: rest => some ((negate x, d + 1), rest)
    | _ => none
  | .binary op =>
    match stack with
    | (y, d') :: (x, d) :: rest => some ((binary op x y, max d d' + 1), rest)
    | _ => none
  | .call f =>
    let args := (stack.take f.arity).reverse
    if args.length < f.arity then none
    else
      let depth := (args.map (·.2)).foldl max 0 + 1
      some ((call f (args.map (·.1)), depth), stack.drop f.arity)

def step (b : Builder) (item : Located (Postfix.Item Float)) : Except ReadError Builder :=
  if maxSize < b.count + 1 then .error ⟨item.position, .tooLong maxSize⟩
  else
    match combine? b.stack item.value with
    | none => .error ⟨item.position, .missingOperand⟩
    | some ((x, depth), rest) =>
      if maxDepth < depth then .error ⟨item.position, .tooDeep maxDepth⟩
      else .ok ⟨(x, depth) :: rest, b.count + 1⟩

end Builder

/-- The expression whose items in postfix order are given. -/
def ofPostfix (items : List (Located (Postfix.Item Float))) : Except ReadError (Expr Float) := do
  let b ← items.foldlM Builder.step ⟨[], 0⟩
  match b.stack with
  | [] => .error ⟨0, .emptyInput⟩
  | [(x, _)] => .ok x
  | _ => .error ⟨0, .missingOperand⟩

end Argand.Expr
