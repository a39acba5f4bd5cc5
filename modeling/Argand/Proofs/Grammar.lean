import Argand.Expr

namespace Argand

inductive Phrase
  | expression
  | term
  | unary
  | power
  | atom
deriving DecidableEq, Repr

namespace Phrase

/-- The phrase that is an instance of the given one without a further token. -/
def looser : Phrase → Phrase
  | atom => power
  | power => unary
  | unary => term
  | term | expression => expression

def rank : Phrase → Nat
  | expression => 0
  | term => 1
  | unary => 2
  | power => 3
  | atom => 4

/-- The least precedence of an operator or a minus sign outside all parentheses of the phrase. -/
def precedence : Phrase → Nat
  | expression => 1
  | term => 2
  | unary | power => negationPrecedence
  | atom => 5

end Phrase

namespace Operator

def token : Operator → Token
  | add => .plus
  | sub => .minus
  | mul => .star
  | div => .slash
  | pow => .caret

/-- What an operator makes of its two operands. -/
def phrase : Operator → Phrase
  | add | sub => .expression
  | mul | div => .term
  | pow => .power

/-- The left operand. A sum or a product may begin with another one, a power may not. -/
def left : Operator → Phrase
  | add | sub => .expression
  | mul | div => .term
  | pow => .atom

/-- The right operand. The exponent of a power may be another power. -/
def right : Operator → Phrase
  | add | sub => .term
  | mul | div | pow => .unary

end Operator

mutual

/-- The grammar of formulas in a given variable, with the tree of every derivation:

    expression := term (("+" | "-") term)*
    term       := unary (("*" | "/") unary)*
    unary      := "-" unary | power
    power      := atom ("^" unary)?
    atom       := number | imaginary | constant | variable
                | "(" expression ")" | function "(" expression ("," expression)* ")"

A repetition is a phrase of its own kind on the left of the operator. -/
inductive Derives (v : String) : Phrase → List (Located Token) → Expr Float → Prop
  | number (a : Float) (p : Nat) : Derives v .atom [⟨.number a, p⟩] (.literal ⟨a, 0.0⟩)
  | imaginary (a : Float) (p : Nat) : Derives v .atom [⟨.imaginary a, p⟩] (.literal ⟨0.0, a⟩)
  | unknown (p : Nat) : Derives v .atom [⟨.name v, p⟩] .unknown
  /-- A name is a constant only if it is neither the variable nor a function. -/
  | constant {n : String} {c : Complex Float} (p : Nat) (hv : n ≠ v)
      (hf : Builtin.isName n = false) (hc : constant? n = some c) :
      Derives v .atom [⟨.name n, p⟩] (.literal c)
  | parentheses {ts : List (Located Token)} {x : Expr Float} (p q : Nat)
      (h : Derives v .expression ts x) :
      Derives v .atom (⟨.leftParen, p⟩ :: (ts ++ [⟨.rightParen, q⟩])) x
  /-- A name is a function only if it is not the variable, and the number of arguments must be one
  that the function has. -/
  | call {n : String} {ts : List (Located Token)} {xs : List (Expr Float)} {f : Builtin}
      (p q r : Nat) (hv : n ≠ v) (hf : Builtin.isName n = true) (h : DerivesList v ts xs)
      (hr : Builtin.resolve n xs.length = .ok f) :
      Derives v .atom (⟨.name n, p⟩ :: ⟨.leftParen, q⟩ :: (ts ++ [⟨.rightParen, r⟩])) (.call f xs)
  | negate {ts : List (Located Token)} {x : Expr Float} (p : Nat) (h : Derives v .unary ts x) :
      Derives v .unary (⟨.minus, p⟩ :: ts) (.negate x)
  | binary {ts us : List (Located Token)} {x y : Expr Float} (op : Operator) (p : Nat)
      (hl : Derives v op.left ts x) (hr : Derives v op.right us y) :
      Derives v op.phrase (ts ++ ⟨op.token, p⟩ :: us) (.binary op x y)
  | loosen {l : Phrase} {ts : List (Located Token)} {x : Expr Float} (h : Derives v l ts x) :
      Derives v l.looser ts x

/-- The arguments of a call, with commas between them. -/
inductive DerivesList (v : String) : List (Located Token) → List (Expr Float) → Prop
  | single {ts : List (Located Token)} {x : Expr Float} (h : Derives v .expression ts x) :
      DerivesList v ts [x]
  | more {ts us : List (Located Token)} {xs : List (Expr Float)} {y : Expr Float} (p : Nat)
      (hs : DerivesList v ts xs) (h : Derives v .expression us y) :
      DerivesList v (ts ++ ⟨.comma, p⟩ :: us) (xs ++ [y])

end

variable {v : String} {l m : Phrase} {ts : List (Located Token)} {x : Expr Float}

theorem Phrase.rank_looser (l : Phrase) : l.looser.rank = l.rank - 1 := by
  cases l <;> rfl

theorem Phrase.eq_of_rank_eq (h : l.rank = m.rank) : l = m := by
  cases l <;> cases m <;> simp [rank] at h ⊢

theorem Phrase.precedence_looser_le (l : Phrase) : l.looser.precedence ≤ l.precedence := by
  cases l <;> decide

theorem Derives.loosenTo (h : Derives v l ts x) (hle : m.rank ≤ l.rank) : Derives v m ts x := by
  obtain ⟨k, hk⟩ := Nat.exists_eq_add_of_le hle
  induction k generalizing l with
  | zero =>
    have eq : l = m := Phrase.eq_of_rank_eq (by omega)
    exact eq ▸ h
  | succ k ih =>
    have hr := l.rank_looser
    exact ih h.loosen (by omega) (by omega)

theorem Derives.toExpression (h : Derives v l ts x) : Derives v .expression ts x :=
  h.loosenTo (Nat.zero_le _)

theorem Derives.ne_nil {l : Phrase} {ts : List (Located Token)} {x : Expr Float} :
    Derives v l ts x → ts ≠ []
  | .number _ _ | .imaginary _ _ | .unknown _ | .constant _ _ _ _ => List.cons_ne_nil _ _
  | .parentheses _ _ _ | .call _ _ _ _ _ _ _ | .negate _ _ => List.cons_ne_nil _ _
  | .binary _ _ hl _ => List.append_ne_nil_of_left_ne_nil hl.ne_nil _
  | .loosen h => h.ne_nil

theorem DerivesList.length_pos {xs : List (Expr Float)} (h : DerivesList v ts xs) :
    0 < xs.length := by
  cases h <;> simp

end Argand
