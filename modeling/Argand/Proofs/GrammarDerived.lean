import Argand.Proofs.GrammarAccepted

namespace Argand.Postfix

variable {v : String} {l m : Phrase} {op : Operator} {ts us : List (Located Token)}
  {x : Expr Float} {s s' : State} {pending : List Pending}
  {output : List (Located (Item Float))} {out : List (Item Float)}

/-- The pending operators and parentheses in front of an operand, the tokens that led there, and the
items put out so far. A pending operator has its whole left operand, and an open call has all
arguments before the last comma. -/
inductive Opened (v : String) : List Pending → List (Located Token) → List (Item Float) → Prop
  | start : Opened v [] [] []
  | operator {pending : List Pending} {ts us : List (Located Token)} {x : Expr Float}
      {out : List (Item Float)} (op : Operator) (p : Nat) (h : Opened v pending ts out)
      (hb : Blocked (goesBefore op) pending) (hx : Derives v op.left us x) :
      Opened v (.operator op p :: pending) (ts ++ (us ++ [⟨op.token, p⟩]))
        (x.postorder.reverse ++ out)
  | negation {pending : List Pending} {ts : List (Located Token)} {out : List (Item Float)}
      (p : Nat) (h : Opened v pending ts out) :
      Opened v (.negation p :: pending) (ts ++ [⟨.minus, p⟩]) out
  | parenthesis {pending : List Pending} {ts : List (Located Token)} {out : List (Item Float)}
      (p : Nat) (h : Opened v pending ts out) :
      Opened v (.opening p none 0 :: pending) (ts ++ [⟨.leftParen, p⟩]) out
  | call {pending : List Pending} {ts : List (Located Token)} {out : List (Item Float)}
      {n : String} (p q : Nat) (h : Opened v pending ts out) (hv : n ≠ v)
      (hf : Builtin.isName n = true) :
      Opened v (.opening q (some ⟨n, p⟩) 0 :: pending) (ts ++ [⟨.name n, p⟩, ⟨.leftParen, q⟩]) out
  | argument {pending : List Pending} {ts us : List (Located Token)} {out : List (Item Float)}
      {n : String} {xs : List (Expr Float)} (p q r : Nat) (h : Opened v pending ts out)
      (hv : n ≠ v) (hf : Builtin.isName n = true) (hxs : DerivesList v us xs) :
      Opened v (.opening q (some ⟨n, p⟩) xs.length :: pending)
        (ts ++ ⟨.name n, p⟩ :: ⟨.leftParen, q⟩ :: (us ++ [⟨.comma, r⟩]))
        ((Expr.postorderOfList xs).reverse ++ out)

/-- The states between two tokens, with the tokens that led there. After an operand the last phrase
that is complete is an atom. -/
inductive Reached (v : String) : List (Located Token) → State → Prop
  | operand {pending : List Pending} {ts : List (Located Token)}
      {output : List (Located (Item Float))} (h : Opened v pending ts (items output)) :
      Reached v ts ⟨output, pending, .operand⟩
  | operator {pending : List Pending} {ts us : List (Located Token)} {x : Expr Float}
      {output : List (Located (Item Float))} {out : List (Item Float)} (h : Opened v pending ts out)
      (hx : Derives v .atom us x) (ho : items output = x.postorder.reverse ++ out) :
      Reached v (ts ++ us) ⟨output, pending, .operator⟩
  | parenthesis {pending : List Pending} {ts : List (Located Token)} {n : String}
      {output : List (Located (Item Float))} (p : Nat) (h : Opened v pending ts (items output))
      (hv : n ≠ v) (hf : Builtin.isName n = true) :
      Reached v (ts ++ [⟨.name n, p⟩]) ⟨output, pending, .parenthesis ⟨n, p⟩⟩

/-- The phrase may be the operand of the latest pending operator. -/
def Fits (l : Phrase) : List Pending → Prop
  | .operator op _ :: _ => op.right.rank ≤ l.rank
  | .negation _ :: _ => Phrase.unary.rank ≤ l.rank
  | .opening _ _ _ :: _ | [] => True

theorem fits_atom (pending : List Pending) : Fits .atom pending := by
  rcases pending with _ | ⟨⟨⟨⟩, _⟩ | _ | _, _⟩ <;> simp [Fits, Operator.right, Phrase.rank]

theorem fits_unary (pending : List Pending) : Fits .unary pending := by
  rcases pending with _ | ⟨⟨⟨⟩, _⟩ | _ | _, _⟩ <;> simp [Fits, Operator.right, Phrase.rank]

/-- What an operator did not release takes the phrase of the operator as its operand. -/
theorem fits_phrase (h : Blocked (goesBefore op) pending) : Fits op.phrase pending := by
  rcases pending with _ | ⟨⟨op', _⟩ | _ | _, _⟩
  · trivial
  · cases op <;> cases op' <;>
      first | contradiction | simp [Fits, Operator.phrase, Operator.right, Phrase.rank]
  · cases op <;> first | contradiction | simp [Fits, Operator.phrase, Phrase.rank]
  · trivial

/-- Releasing makes larger phrases of the last complete one. -/
theorem Opened.release (h : Opened v pending ts out) (leaves : Nat → Bool) (m : Phrase)
    (hx : Derives v l us x) (hl : m.rank ≤ l.rank) (hfits : Fits l pending)
    (ho : items output = x.postorder.reverse ++ out)
    (hop : ∀ op : Operator, leaves op.precedence = true → m.rank ≤ op.phrase.rank)
    (hneg : leaves negationPrecedence = true → m.rank ≤ Phrase.unary.rank) :
    ∃ ts' us' x' out', ts ++ us = ts' ++ us' ∧
      Opened v (Postfix.release leaves pending output).1 ts' out' ∧ Derives v m us' x' ∧
      items (Postfix.release leaves pending output).2 = x'.postorder.reverse ++ out' ∧
      Blocked leaves (Postfix.release leaves pending output).1 := by
  -- The last complete phrase grows with everything that leaves, so it varies in the induction.
  induction h generalizing l us x output with
  | start => exact ⟨_, us, x, _, rfl, .start, hx.loosenTo hl, ho, trivial⟩
  | parenthesis p h => exact ⟨_, us, x, _, rfl, .parenthesis p h, hx.loosenTo hl, ho, trivial⟩
  | call p q h hv hf => exact ⟨_, us, x, _, rfl, .call p q h hv hf, hx.loosenTo hl, ho, trivial⟩
  | argument p q r h hv hf hxs =>
    exact ⟨_, us, x, _, rfl, .argument p q r h hv hf hxs, hx.loosenTo hl, ho, trivial⟩
  | @negation rest _ below p h ih =>
    by_cases leaf : leaves negationPrecedence = true
    · rw [release_negation leaf]
      have negated := (hx.loosenTo hfits).negate p
      have ho' : items (⟨.negate, p⟩ :: output) = (Expr.negate x).postorder.reverse ++ below := by
        simp [Expr.postorder, ho]
      obtain ⟨ts', us', x', out', ht, rest⟩ := ih negated (hneg leaf) (fits_unary _) ho'
      exact ⟨ts', us', x', out', by simpa using ht, rest⟩
    · have blocked : Blocked leaves (.negation p :: rest) := Bool.eq_false_iff.mpr leaf
      rw [release_of_blocked blocked]
      exact ⟨_, us, x, _, rfl, .negation p h, hx.loosenTo hl, ho, blocked⟩
  | @operator rest _ _ y below op p h hb hy ih =>
    by_cases leaf : leaves op.precedence = true
    · rw [release_operator leaf]
      have joined := Derives.binary op p hy (hx.loosenTo hfits)
      have ho' : items (⟨.binary op, p⟩ :: output) =
          (Expr.binary op y x).postorder.reverse ++ below := by
        simp [Expr.postorder, ho]
      obtain ⟨ts', us', x', out', ht, rest⟩ := ih joined (hop op leaf) (fits_phrase hb) ho'
      exact ⟨ts', us', x', out', by simpa using ht, rest⟩
    · have blocked : Blocked leaves (.operator op p :: rest) := Bool.eq_false_iff.mpr leaf
      rw [release_of_blocked blocked]
      exact ⟨_, us, x, _, rfl, .operator op p h hb hy, hx.loosenTo hl, ho, blocked⟩

theorem Opened.readBinary (h : Opened v pending ts out) (hx : Derives v .atom us x)
    (ho : items output = x.postorder.reverse ++ out) {p : Nat}
    (hr : readBinary ⟨output, pending, .operator⟩ op p = .ok s) :
    Reached v (ts ++ us ++ [⟨op.token, p⟩]) s := by
  obtain ⟨ts', us', x', out', ht, hopened, hx', ho', hblocked⟩ :=
    h.release (goesBefore op) op.left hx (by cases op <;> decide) (fits_atom _) ho
      (by intro op'; cases op <;> cases op' <;> decide) (by cases op <;> decide)
  cases hr
  rw [ht, List.append_assoc]
  refine .operand ?_
  rw [ho']
  exact .operator op p hopened hblocked hx'

/-- A closing parenthesis, a comma and the end find everything complete after the last parenthesis
that is open. -/
theorem Opened.release_all (h : Opened v pending ts out) (hx : Derives v .atom us x)
    (ho : items output = x.postorder.reverse ++ out) :
    ∃ ts' us' x' out', ts ++ us = ts' ++ us' ∧
      Opened v (Postfix.release (fun _ => true) pending output).1 ts' out' ∧
      Derives v .expression us' x' ∧
      items (Postfix.release (fun _ => true) pending output).2 = x'.postorder.reverse ++ out' ∧
      Blocked (fun _ => true) (Postfix.release (fun _ => true) pending output).1 :=
  h.release (fun _ => true) .expression hx (Nat.zero_le _) (fits_atom _) ho
    (fun _ _ => Nat.zero_le _) fun _ => Nat.zero_le _

theorem Opened.readClosing (h : Opened v pending ts out) (hx : Derives v .atom us x)
    (ho : items output = x.postorder.reverse ++ out) {p : Nat}
    (hr : readClosing ⟨output, pending, .operator⟩ p = .ok s) :
    Reached v (ts ++ us ++ [⟨.rightParen, p⟩]) s := by
  obtain ⟨ts', us', x', out', ht, hopened, hx', ho', _⟩ := h.release_all hx ho
  unfold Postfix.readClosing at hr
  rw [ht]
  split at hr
  next q _ rest out₁ heq =>
    rw [heq] at hopened ho'
    cases hr
    cases hopened with
    | @parenthesis _ ts₀ _ _ h =>
      have atom := hx'.parentheses q p
      simpa using Reached.operator h atom ho'
  next q g commas rest out₁ heq =>
    rw [heq] at hopened ho'
    split at hr
    next => simp at hr
    next f hf =>
      cases hr
      cases hopened with
      | @call _ ts₀ _ n r q h hv hn =>
        have atom := Derives.call r q p hv hn (.single hx') hf
        have ho' : items (⟨.call f, r⟩ :: out₁) = (Expr.call f [x']).postorder.reverse ++ out' := by
          simp [Expr.postorder, ho']
        simpa using Reached.operator h atom ho'
      | @argument _ ts₀ us₀ below n xs r q c h hv hn hxs =>
        have atom := Derives.call r q p hv hn (.more c hxs hx') (by simpa using hf)
        have ho' : items (⟨.call f, r⟩ :: out₁) =
            (Expr.call f (xs ++ [x'])).postorder.reverse ++ below := by
          simp [Expr.postorder, Expr.postorderOfList_append, ho']
        simpa using Reached.operator h atom ho'
  next => simp at hr

theorem Opened.readComma (h : Opened v pending ts out) (hx : Derives v .atom us x)
    (ho : items output = x.postorder.reverse ++ out) {p : Nat}
    (hr : readComma ⟨output, pending, .operator⟩ p = .ok s) :
    Reached v (ts ++ us ++ [⟨.comma, p⟩]) s := by
  obtain ⟨ts', us', x', out', ht, hopened, hx', ho', _⟩ := h.release_all hx ho
  unfold Postfix.readComma at hr
  rw [ht]
  split at hr
  next q g commas rest out₁ heq =>
    rw [heq] at hopened ho'
    cases hr
    refine .operand ?_
    cases hopened with
    | @call _ ts₀ _ n r q h hv hn =>
      rw [ho']
      simpa using h.argument r q p hv hn (.single hx')
    | @argument _ ts₀ us₀ _ n xs r q c h hv hn hxs =>
      rw [ho']
      simpa [Expr.postorderOfList_append] using h.argument r q p hv hn (.more c hxs hx')
  next => simp at hr

theorem Opened.readOperand (h : Opened v pending ts (items output)) {t : Located Token}
    (hr : readOperand v ⟨output, pending, .operand⟩ t = .ok s) : Reached v (ts ++ [t]) s := by
  obtain ⟨t, p⟩ := t
  cases t with
  | number a => cases hr; exact .operator h (.number a p) rfl
  | imaginary a => cases hr; exact .operator h (.imaginary a p) rfl
  | leftParen => cases hr; exact .operand (h.parenthesis p)
  | minus => cases hr; exact .operand (h.negation p)
  | name n =>
    simp only [Postfix.readOperand, beq_iff_eq] at hr
    split at hr
    next hv => subst n; cases hr; exact .operator h (.unknown p) rfl
    next hv =>
      split at hr
      next hf => cases hr; exact .parenthesis p h hv hf
      next hf =>
        split at hr
        next c hc =>
          cases hr
          exact .operator h (.constant p hv (Bool.eq_false_iff.mpr hf) hc) rfl
        next => simp at hr
  | rightParen =>
    simp only [Postfix.readOperand] at hr
    split at hr
    next => split at hr <;> simp at hr
    next => simp at hr
  | _ => simp [Postfix.readOperand] at hr

theorem Reached.step {t : Located Token} (h : Reached v ts s) (hr : step v s t = .ok s') :
    Reached v (ts ++ [t]) s' := by
  cases h with
  | operand h => exact h.readOperand hr
  | @parenthesis _ _ n output p h hv hf =>
    simp only [Postfix.step] at hr
    split at hr
    next heq =>
      cases hr
      obtain ⟨t, q⟩ := t
      subst heq
      simpa [State.push] using Reached.operand (h.call p q hv hf)
    next => simp at hr
  | operator h hx ho =>
    obtain ⟨t, p⟩ := t
    cases t with
    | plus => exact h.readBinary hx ho hr
    | minus => exact h.readBinary hx ho hr
    | star => exact h.readBinary hx ho hr
    | slash => exact h.readBinary hx ho hr
    | caret => exact h.readBinary hx ho hr
    | rightParen => exact h.readClosing hx ho hr
    | comma => exact h.readComma hx ho hr
    | _ => simp [Postfix.step, readOperator] at hr

/-- Every state that the reader reaches describes the tokens before it. -/
theorem Reached.runs (h : Reached v ts s) (hr : Runs v us s s') : Reached v (ts ++ us) s' := by
  induction us generalizing ts s with
  | nil => cases hr; simpa using h
  | cons t us ih =>
    simp only [Runs, List.foldlM_cons] at hr
    cases hs : Postfix.step v s t with
    | error e => simp [hs, bind, Except.bind] at hr
    | ok s₁ =>
      rw [hs] at hr
      simpa using ih (h.step hs) hr

theorem Reached.finish (h : Reached v ts s) {length : Nat} (hr : finish s length = .ok output) :
    ∃ x, Derives v .expression ts x ∧ x.postorder = output.map (·.value) := by
  cases h with
  | operand | parenthesis => simp [Postfix.finish] at hr
  | operator h hx ho =>
    obtain ⟨ts', us', x', out', ht, hopened, hx', ho', hblocked⟩ := h.release_all hx ho
    simp only [Postfix.finish] at hr
    split at hr
    next => simp at hr
    next rest out₁ hne heq =>
      rw [heq] at hopened ho' hblocked
      cases hr
      cases hopened with
      | start =>
        refine ⟨x', by simpa [ht] using hx', ?_⟩
        simpa [items] using congrArg List.reverse ho'.symm
      | operator | negation => simp [Blocked] at hblocked
      | parenthesis | call | argument => exact absurd rfl (hne _ _ _ _)

theorem finish_of_settled (h : Settled .expression s [] output) (length : Nat) :
    finish s length = .ok output.reverse := by
  simp [finish, h.1, h.release_all, release]

theorem read_of_runs (hne : ts ≠ []) (hr : Runs v ts State.start s) (length : Nat) :
    read ts v length = finish s length := by
  unfold Runs at hr
  simp [read, hne, hr, bind, Except.bind]

theorem runs_of_read_ok {length : Nat} (h : read ts v length = .ok output) :
    ∃ s, Runs v ts State.start s ∧ finish s length = .ok output := by
  unfold read at h
  split at h
  next => simp at h
  next =>
    cases hs : ts.foldlM (Postfix.step v) State.start with
    | error e => simp [hs, bind, Except.bind] at h
    | ok s => exact ⟨s, hs, by simpa [hs, bind, Except.bind] using h⟩

theorem exists_derives_of_read {length : Nat} (h : read ts v length = .ok output) :
    ∃ x, Derives v .expression ts x ∧ output.map (·.value) = x.postorder := by
  obtain ⟨s, hr, hf⟩ := runs_of_read_ok h
  have started : Reached v [] State.start := .operand .start
  have reached : Reached v ts s := started.runs hr
  obtain ⟨x, hx, ho⟩ := reached.finish hf
  exact ⟨x, hx, ho.symm⟩

theorem read_of_derives_conserved {x : Expr Float} (h : Derives v .expression ts x)
    (length : Nat) :
    ∃ output, read ts v length = .ok output ∧ output.map (·.value) = x.postorder ∧
      Conserved v ts output := by
  obtain ⟨s, its, hr, hs, ho, hi⟩ := runs_of_derives h [] [] fun _ _ => trivial
  refine ⟨its, ?_, ho, hi⟩
  rw [read_of_runs h.ne_nil hr, finish_of_settled hs, List.append_nil, List.reverse_reverse]

theorem read_of_derives {x : Expr Float} (h : Derives v .expression ts x) (length : Nat) :
    ∃ output, read ts v length = .ok output ∧ output.map (·.value) = x.postorder := by
  obtain ⟨output, hr, ho, -⟩ := read_of_derives_conserved h length
  exact ⟨output, hr, ho⟩

/-- The reader accepts exactly the formulas of the grammar, and puts out their trees in postfix
order. -/
theorem read_eq_ok_iff_derives (v : String) (ts : List (Located Token)) (length : Nat)
    (items : List (Item Float)) :
    (read ts v length).map (·.map (·.value)) = .ok items ↔
      ∃ x, Derives v .expression ts x ∧ x.postorder = items := by
  constructor
  · intro h
    cases hread : read ts v length with
    | error e => simp [hread, Except.map] at h
    | ok output =>
      obtain ⟨x, hx, ho⟩ := exists_derives_of_read hread
      rw [hread] at h
      exact ⟨x, hx, by simpa [Except.map, ho] using h⟩
  · rintro ⟨x, hx, rfl⟩
    obtain ⟨output, hread, ho⟩ := read_of_derives hx length
    rw [hread, ← ho]
    rfl

end Argand.Postfix
