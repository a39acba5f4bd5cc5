import Argand.Proofs.Grammar

namespace Argand

/-- An operand begins behind this token, so that a minus sign there has nothing on its left. -/
def Token.opensOperand : Token → Bool
  | .plus | .minus | .star | .slash | .caret | .leftParen | .comma => true
  | .number _ | .imaginary _ | .name _ | .rightParen => false

/-- All but parentheses and commas. -/
def Token.isWord : Token → Bool
  | .leftParen | .rightParen | .comma => false
  | .number _ | .imaginary _ | .name _ | .plus | .minus | .star | .slash | .caret => true

namespace Postfix

/-- A value or the variable. -/
def Item.isOperand : Item Float → Bool
  | .value _ | .unknown => true
  | .negate | .binary _ | .call _ => false

@[simp] theorem Item.isOperand_negate : Item.negate.isOperand = false := rfl

@[simp] theorem Item.isOperand_binary (op : Operator) : (Item.binary op).isOperand = false := rfl

@[simp] theorem Item.isOperand_call (f : Builtin) : (Item.call f).isOperand = false := rfl

/-- The commas outside of all parentheses that open in the list, up to the one that closes an outer
level. -/
def commas : Nat → List (Located Token) → Nat
  | _, [] => 0
  | level, t :: ts =>
    match t.value, level with
    | .leftParen, level => commas (level + 1) ts
    | .rightParen, 0 => 0
    | .rightParen, level + 1 => commas level ts
    | .comma, 0 => commas 0 ts + 1
    | _, level => commas level ts

/-- The item that stands for a token in front of the given ones. At the front of an operand a minus
sign negates; the function of a name depends on the number of arguments in its parentheses. -/
def item? (v : String) (front : Bool) (t : Token) (ts : List (Located Token)) :
    Option (Item Float) :=
  match t with
  | .number a => some (.value ⟨a, 0.0⟩)
  | .imaginary a => some (.value ⟨0.0, a⟩)
  | .name n =>
    if n = v then some .unknown
    else if Builtin.isName n then
      (Builtin.resolve n (commas 0 (ts.drop 1) + 1)).toOption.map .call
    else (constant? n).map .value
  | .minus => some (if front then .negate else .binary .sub)
  | .plus => some (.binary .add)
  | .star => some (.binary .mul)
  | .slash => some (.binary .div)
  | .caret => some (.binary .pow)
  | .leftParen | .rightParen | .comma => none

/-- The items for all tokens, each at the place of its token. -/
def tokenItems (v : String) : Bool → List (Located Token) → List (Located (Item Float))
  | _, [] => []
  | front, t :: ts =>
    ((item? v front t.value ts).map fun i => ⟨i, t.position⟩).toList ++
      tokenItems v t.value.opensOperand ts

theorem item?_of_not_isWord {t : Token} (h : t.isWord = false) (v : String) (front : Bool)
    (ts : List (Located Token)) : item? v front t ts = none := by
  cases t <;> first | rfl | cases h

theorem positions_tokenItems (v : String) (front : Bool) (ts : List (Located Token)) :
    ((tokenItems v front ts).map (·.position)).Sublist
      ((ts.filter (·.value.isWord)).map (·.position)) := by
  induction ts generalizing front with
  | nil => exact .slnil
  | cons t ts ih =>
    rw [tokenItems, List.map_append]
    cases word : t.value.isWord with
    | false =>
      rw [item?_of_not_isWord word, List.filter_cons, if_neg (by simp [word])]
      exact ih _
    | true =>
      rw [List.filter_cons, if_pos word]
      cases item? v front t.value ts with
      | none => exact (ih _).cons _
      | some i => exact (ih _).cons_cons _

variable {v : String} {l : Phrase} {ts us : List (Located Token)} {x : Expr Float}
  {xs : List (Expr Float)} {its jts : List (Located (Item Float))} {f : Builtin}

theorem commas_operator (level : Nat) (op : Operator) (p : Nat) (ts : List (Located Token)) :
    commas level (⟨op.token, p⟩ :: ts) = commas level ts := by
  cases op <;> rfl

mutual

theorem commas_of_derives {l : Phrase} {ts : List (Located Token)} {x : Expr Float}
    (h : Derives v l ts x) (level : Nat) (after : List (Located Token)) :
    commas level (ts ++ after) = commas level after := by
  match h with
  | .number _ _ | .imaginary _ _ | .unknown _ | .constant _ _ _ _ => rfl
  | .parentheses p q h =>
    simp [commas, commas_of_derives h]
  | .call p q r hv hf h hr =>
    simp [commas, commas_of_derivesList h]
  | .negate p h => exact commas_of_derives h level after
  | .binary op p hl hr =>
    rw [List.append_assoc, commas_of_derives hl, List.cons_append, commas_operator,
      commas_of_derives hr]
  | .loosen h => exact commas_of_derives h level after

/-- Between the parentheses of a call stand one comma less than arguments. -/
theorem commas_of_derivesList {ts : List (Located Token)} {xs : List (Expr Float)}
    (h : DerivesList v ts xs) (level : Nat) (after : List (Located Token)) :
    commas level (ts ++ after) = (if level = 0 then xs.length - 1 else 0) + commas level after := by
  match h with
  | .single h => simp [commas_of_derives h]
  | .more p hs h =>
    have count := hs.length_pos
    rw [List.append_assoc, commas_of_derivesList hs, List.cons_append]
    cases level with
    | zero =>
      simp [commas, commas_of_derives h]
      omega
    | succ level => simp [commas, commas_of_derives h]

end

/-- The items are those of the tokens, in an order that keeps that of the operands, whatever tokens
follow. The tokens begin where an operand is expected and end behind one. -/
def Conserved (v : String) (ts : List (Located Token)) (its : List (Located (Item Float))) : Prop :=
  its.length = ts.countP (·.value.isWord) ∧
  ∃ expected, (∀ after, tokenItems v true (ts ++ after) = expected ++ tokenItems v false after) ∧
    its.Perm expected ∧
    its.filter (·.value.isOperand) = expected.filter (·.value.isOperand)

theorem Conserved.operand {t : Token} {i : Item Float} (p : Nat)
    (hi : ∀ after, item? v true t after = some i) (ht : t.opensOperand = false)
    (hw : t.isWord = true) : Conserved v [⟨t, p⟩] [⟨i, p⟩] :=
  ⟨by simp [hw], [⟨i, p⟩], fun after => by simp [tokenItems, hi, ht], .refl _, rfl⟩

theorem Conserved.parentheses (h : Conserved v ts its) (p q : Nat) :
    Conserved v (⟨.leftParen, p⟩ :: (ts ++ [⟨.rightParen, q⟩])) its := by
  obtain ⟨count, expected, eq, perm, order⟩ := h
  refine ⟨by simp [count, Token.isWord], expected, fun after => ?_, perm, order⟩
  simp [tokenItems, eq, item?, Token.opensOperand]

theorem Conserved.arguments (h : Conserved v ts its) (h' : Conserved v us jts) (p : Nat) :
    Conserved v (ts ++ ⟨.comma, p⟩ :: us) (its ++ jts) := by
  obtain ⟨count, expected, eq, perm, order⟩ := h
  obtain ⟨count', expected', eq', perm', order'⟩ := h'
  refine ⟨by simp [count, count', Token.isWord], expected ++ expected', fun after => ?_,
    perm.append perm', ?_⟩
  · simp [tokenItems, eq, eq', item?, Token.opensOperand]
  · rw [List.filter_append, List.filter_append, order, order']

theorem Conserved.call {n : String} (h : Conserved v ts its) (hv : n ≠ v)
    (hf : Builtin.isName n = true) (hxs : DerivesList v ts xs)
    (hr : Builtin.resolve n xs.length = .ok f) (p q r : Nat) :
    Conserved v (⟨.name n, p⟩ :: ⟨.leftParen, q⟩ :: (ts ++ [⟨.rightParen, r⟩]))
      (its ++ [⟨.call f, p⟩]) := by
  obtain ⟨count, expected, eq, perm, order⟩ := h
  have arguments (after : List (Located Token)) :
      commas 0 (ts ++ ⟨.rightParen, r⟩ :: after) + 1 = xs.length := by
    rw [commas_of_derivesList hxs, if_pos rfl]
    exact Nat.sub_add_cancel hxs.length_pos
  refine ⟨by simp [count, Token.isWord], ⟨.call f, p⟩ :: expected, fun after => ?_,
    (List.perm_append_singleton _ _).trans (perm.cons _), ?_⟩
  · simp [tokenItems, eq, item?, Token.opensOperand, hv, hf, arguments, hr, Except.toOption]
  · simpa using order

theorem Conserved.negate (h : Conserved v ts its) (p : Nat) :
    Conserved v (⟨.minus, p⟩ :: ts) (its ++ [⟨.negate, p⟩]) := by
  obtain ⟨count, expected, eq, perm, order⟩ := h
  refine ⟨by simp [count, Token.isWord], ⟨.negate, p⟩ :: expected, fun after => ?_,
    (List.perm_append_singleton _ _).trans (perm.cons _), ?_⟩
  · simp [tokenItems, eq, item?, Token.opensOperand]
  · simpa using order

theorem item?_operator (op : Operator) (ts : List (Located Token)) :
    item? v false op.token ts = some (.binary op) := by
  cases op <;> rfl

theorem Conserved.binary (h : Conserved v ts its) (h' : Conserved v us jts) (op : Operator)
    (p : Nat) :
    Conserved v (ts ++ ⟨op.token, p⟩ :: us) (its ++ jts ++ [⟨.binary op, p⟩]) := by
  obtain ⟨count, expected, eq, perm, order⟩ := h
  obtain ⟨count', expected', eq', perm', order'⟩ := h'
  have opens : op.token.opensOperand = true := by cases op <;> rfl
  have word : op.token.isWord = true := by cases op <;> rfl
  refine ⟨by simp [count, count', word], expected ++ ⟨.binary op, p⟩ :: expected',
    fun after => ?_, ?_, ?_⟩
  · simp [tokenItems, eq, eq', item?_operator, opens]
  · rw [List.append_assoc]
    exact perm.append ((List.perm_append_singleton _ _).trans (perm'.cons _))
  · simp [order, order']

end Postfix
end Argand
