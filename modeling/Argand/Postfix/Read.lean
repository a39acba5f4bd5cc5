import Argand.Postfix

namespace Argand.Postfix

/-- What waits for its operands, or for its closing parenthesis. -/
inductive Pending
  | operator (op : Operator) (position : Nat)
  | negation (position : Nat)
  /-- An opening parenthesis; of a call it keeps the name and the commas met so far. -/
  | opening (position : Nat) (call : Option (Located String)) (commas : Nat)
deriving DecidableEq

/-- What may come next. -/
inductive Expectation
  | operand
  | operator
  /-- The parenthesis right after a function name. -/
  | parenthesis (function : Located String)
deriving DecidableEq

/-- The state between two tokens. Output and pending operators have the latest one first. -/
structure State where
  output : List (Located (Item Float))
  pending : List Pending
  expects : Expectation

namespace State

def start : State := ⟨[], [], .operand⟩

/-- An operand has been read in full. -/
def emit (s : State) (item : Item Float) (position : Nat) : State :=
  ⟨⟨item, position⟩ :: s.output, s.pending, .operator⟩

/-- Something waits for the operand that must follow. -/
def push (s : State) (p : Pending) : State := ⟨s.output, p :: s.pending, .operand⟩

end State

/-- Moves pending operators to the output as long as they satisfy the condition; an opening
parenthesis stays. -/
def release (leaves : Nat → Bool) :
    List Pending → List (Located (Item Float)) → List Pending × List (Located (Item Float))
  | .operator op position :: rest, output =>
    if leaves op.precedence then release leaves rest (⟨.binary op, position⟩ :: output)
    else (.operator op position :: rest, output)
  | .negation position :: rest, output =>
    if leaves negationPrecedence then release leaves rest (⟨.negate, position⟩ :: output)
    else (.negation position :: rest, output)
  | pending, output => (pending, output)

/-- Whether a pending operator of the given precedence has its right operand when `op` follows. -/
def goesBefore (op : Operator) (precedence : Nat) : Bool :=
  if op.isRightAssociative then op.precedence < precedence else op.precedence ≤ precedence

/-- A token where an operand must begin. -/
def readOperand (variableName : String) (s : State) (t : Located Token) : Except ReadError State :=
  match t.value with
  | .number v => .ok (s.emit (.value ⟨v, 0.0⟩) t.position)
  | .imaginary v => .ok (s.emit (.value ⟨0.0, v⟩) t.position)
  | .name n =>
    if n == variableName then .ok (s.emit .unknown t.position)
    else if Builtin.isName n then .ok { s with expects := .parenthesis ⟨n, t.position⟩ }
    else
      match constant? n with
      | some c => .ok (s.emit (.value c) t.position)
      | none => .error ⟨t.position, .unknownName n⟩
  | .leftParen => .ok (s.push (.opening t.position none 0))
  | .minus => .ok (s.push (.negation t.position))
  | .rightParen =>
    match s.pending with
    | .opening _ (some f) 0 :: _ =>
      match Builtin.resolve f.value 0 with
      | .error cause => .error ⟨f.position, cause⟩
      | .ok _ => .error ⟨f.position, .missingOperand⟩
    | _ => .error ⟨t.position, .missingOperand⟩
  | .plus | .star | .slash | .caret | .comma => .error ⟨t.position, .missingOperand⟩

/-- An operator after an operand. -/
def readBinary (s : State) (op : Operator) (position : Nat) : Except ReadError State :=
  let (pending, output) := release (goesBefore op) s.pending s.output
  .ok ⟨output, .operator op position :: pending, .operand⟩

/-- A closing parenthesis after an operand. -/
def readClosing (s : State) (position : Nat) : Except ReadError State :=
  match release (fun _ => true) s.pending s.output with
  | (.opening _ none _ :: pending, output) => .ok ⟨output, pending, .operator⟩
  | (.opening _ (some f) commas :: pending, output) =>
    match Builtin.resolve f.value (commas + 1) with
    | .error cause => .error ⟨f.position, cause⟩
    | .ok function => .ok ⟨⟨.call function, f.position⟩ :: output, pending, .operator⟩
  | _ => .error ⟨position, .unopenedParenthesis⟩

/-- A comma after an operand. -/
def readComma (s : State) (position : Nat) : Except ReadError State :=
  match release (fun _ => true) s.pending s.output with
  | (.opening p (some f) commas :: pending, output) =>
    .ok ⟨output, .opening p (some f) (commas + 1) :: pending, .operand⟩
  | _ => .error ⟨position, .commaOutsideCall⟩

/-- A token after an operand. -/
def readOperator (s : State) (t : Located Token) : Except ReadError State :=
  match t.value with
  | .plus => readBinary s .add t.position
  | .minus => readBinary s .sub t.position
  | .star => readBinary s .mul t.position
  | .slash => readBinary s .div t.position
  | .caret => readBinary s .pow t.position
  | .rightParen => readClosing s t.position
  | .comma => readComma s t.position
  | .number _ | .imaginary _ | .name _ | .leftParen =>
    .error ⟨t.position, .unexpectedToken t.value⟩

def step (variableName : String) (s : State) (t : Located Token) : Except ReadError State :=
  match s.expects with
  | .operand => readOperand variableName s t
  | .operator => readOperator s t
  | .parenthesis f =>
    if t.value = .leftParen then .ok (s.push (.opening t.position (some f) 0))
    else .error ⟨f.position, .callWithoutParenthesis f.value⟩

/-- The items in postfix order, when nothing is missing at the end of the text. -/
def finish (s : State) (length : Nat) : Except ReadError (List (Located (Item Float))) :=
  match s.expects with
  | .operand => .error ⟨length, .missingOperand⟩
  | .parenthesis f => .error ⟨f.position, .callWithoutParenthesis f.value⟩
  | .operator =>
    match release (fun _ => true) s.pending s.output with
    | (.opening position _ _ :: _, _) => .error ⟨position, .unclosedParenthesis⟩
    | (_, output) => .ok output.reverse

/-- The tokens of a text of the given length in postfix order. A name equal to that of the variable
is the variable, whatever else it could be. -/
def read (tokens : List (Located Token)) (variableName : String) (length : Nat) :
    Except ReadError (List (Located (Item Float))) :=
  if tokens.isEmpty then .error ⟨0, .emptyInput⟩
  else do
    let s ← tokens.foldlM (step variableName) State.start
    finish s length

end Argand.Postfix
