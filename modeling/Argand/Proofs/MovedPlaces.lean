import Argand.Formula
import Argand.Proofs.Release

namespace Argand

variable {α : Type} {f : Nat → Nat}

/-- The same value at another place. -/
def Located.move (f : Nat → Nat) (t : Located α) : Located α := ⟨t.value, f t.position⟩

/-- The same fault at another place. -/
def ReadError.move (f : Nat → Nat) (e : ReadError) : ReadError := ⟨f e.position, e.cause⟩

namespace Postfix

/-- What waits keeps its places, and those of the function name. -/
def Pending.move (f : Nat → Nat) : Pending → Pending
  | operator op p => operator op (f p)
  | negation p => negation (f p)
  | opening p call commas => opening (f p) (call.map (Located.move f)) commas

def Expectation.move (f : Nat → Nat) : Expectation → Expectation
  | parenthesis function => parenthesis (function.move f)
  | expected => expected

def State.move (f : Nat → Nat) (s : State) : State :=
  ⟨s.output.map (Located.move f), s.pending.map (Pending.move f), s.expects.move f⟩

/-- A state or an error, with every place moved. -/
def moved (f : Nat → Nat) (r : Except ReadError State) : Except ReadError State :=
  (r.mapError (ReadError.move f)).map (State.move f)

variable {s : State} {t : Located Token} {v : String}

theorem release_move (leaves : Nat → Bool) (pending : List Pending)
    (output : List (Located (Item Float))) :
    release leaves (pending.map (Pending.move f)) (output.map (Located.move f)) =
      (release leaves pending output).map (List.map (Pending.move f))
        (List.map (Located.move f)) := by
  fun_induction release leaves pending output with
  | case1 op p rest output leaf ih | case3 p rest output leaf ih =>
    rw [List.map_cons, Pending.move, release, if_pos leaf]
    exact ih
  | case2 op p rest output stays | case4 p rest output stays =>
    rw [List.map_cons, Pending.move, release, if_neg stays]
    rfl
  | case5 pending output other other' =>
    rcases pending with _ | ⟨_ | _ | _, _⟩
    · rfl
    · exact absurd rfl (other _ _ _)
    · exact absurd rfl (other' _ _)
    · rfl

theorem readOperand_move (s : State) (t : Located Token) :
    readOperand v (s.move f) (t.move f) = moved f (readOperand v s t) := by
  obtain ⟨value, p⟩ := t
  cases value with
  | name n =>
    simp only [Located.move, readOperand]
    split
    next => rfl
    next =>
      split
      next => rfl
      next => cases constant? n <;> rfl
  | rightParen =>
    obtain ⟨output, pending, expects⟩ := s
    rcases pending with _ | ⟨_ | _ | ⟨q, _ | function, _ | commas⟩, rest⟩
    case cons.opening.some.zero =>
      simp only [State.move, Located.move, readOperand, List.map_cons, Pending.move,
        Option.map_some]
      cases Builtin.resolve function.value 0 <;> rfl
    all_goals rfl
  | _ => rfl

theorem readBinary_move (s : State) (op : Operator) (p : Nat) :
    readBinary (s.move f) op (f p) = moved f (readBinary s op p) := by
  unfold readBinary
  simp only [State.move, release_move]
  rfl

theorem readClosing_move (s : State) (p : Nat) :
    readClosing (s.move f) (f p) = moved f (readClosing s p) := by
  unfold readClosing
  simp only [State.move, release_move]
  rcases release (fun _ => true) s.pending s.output with
    ⟨_ | ⟨_ | _ | ⟨q, _ | function, commas⟩, rest⟩, output⟩
  case cons.opening.some =>
    simp only [Prod.map, List.map_cons, Pending.move, Option.map_some, Located.move]
    cases Builtin.resolve function.value (commas + 1) <;> rfl
  all_goals rfl

theorem readComma_move (s : State) (p : Nat) :
    readComma (s.move f) (f p) = moved f (readComma s p) := by
  unfold readComma
  simp only [State.move, release_move]
  rcases release (fun _ => true) s.pending s.output with
    ⟨_ | ⟨_ | _ | ⟨q, _ | function, commas⟩, rest⟩, output⟩ <;> rfl

theorem readOperator_move (s : State) (t : Located Token) :
    readOperator (s.move f) (t.move f) = moved f (readOperator s t) := by
  obtain ⟨value, p⟩ := t
  cases value with
  | plus | minus | star | slash | caret => exact readBinary_move s _ p
  | rightParen => exact readClosing_move s p
  | comma => exact readComma_move s p
  | _ => rfl

theorem step_move (s : State) (t : Located Token) :
    step v (s.move f) (t.move f) = moved f (step v s t) := by
  obtain ⟨output, pending, expects⟩ := s
  cases expects with
  | operand => exact readOperand_move _ t
  | operator => exact readOperator_move _ t
  | parenthesis function =>
    by_cases opens : t.value = .leftParen
    · simp only [step, State.move, Expectation.move, Located.move, opens, if_true]
      rfl
    · simp only [step, State.move, Expectation.move, Located.move, opens, if_false]
      rfl

theorem foldlM_step_move (ts : List (Located Token)) (s : State) :
    (ts.map (Located.move f)).foldlM (step v) (s.move f) = moved f (ts.foldlM (step v) s) := by
  induction ts generalizing s with
  | nil => rfl
  | cons t ts ih =>
    rw [List.map_cons, List.foldlM_cons, List.foldlM_cons, step_move]
    cases step v s t with
    | error e => rfl
    | ok next => exact ih next

theorem finish_move (s : State) (length : Nat) :
    finish (s.move f) (f length) = ((finish s length).mapError (ReadError.move f)).map
      (List.map (Located.move f)) := by
  obtain ⟨output, pending, expects⟩ := s
  cases expects with
  | operand | parenthesis => rfl
  | operator =>
    simp only [finish, State.move, Expectation.move, release_move]
    rcases release (fun _ => true) pending output with
      ⟨_ | ⟨_ | _ | _, _⟩, output⟩ <;>
        first | rfl | exact congrArg Except.ok List.map_reverse.symm

/-- The reader takes the places of the tokens as they are, and never compares two of them. -/
theorem read_move {ts : List (Located Token)} (some : ts ≠ []) (v : String) (length : Nat) :
    read (ts.map (Located.move f)) v (f length) =
      ((read ts v length).mapError (ReadError.move f)).map (List.map (Located.move f)) := by
  have full : ts.isEmpty = false := List.isEmpty_eq_false_iff.mpr some
  have run : (ts.map (Located.move f)).foldlM (step v) State.start =
      moved f (ts.foldlM (step v) State.start) := foldlM_step_move ts State.start
  simp only [read, List.isEmpty_map, full, Bool.false_eq_true, if_false, run]
  cases ts.foldlM (step v) State.start with
  | error e => rfl
  | ok s => exact finish_move s length

end Postfix

namespace Expr

theorem Builder.step_move (b : Builder) (i : Located (Postfix.Item Float)) :
    step b (i.move f) = (step b i).mapError (ReadError.move f) := by
  simp only [step, Located.move]
  split
  next => rfl
  next =>
    split
    next => rfl
    next => split <;> rfl

theorem foldlM_step_move (is : List (Located (Postfix.Item Float))) (b : Builder) :
    (is.map (Located.move f)).foldlM Builder.step b =
      (is.foldlM Builder.step b).mapError (ReadError.move f) := by
  induction is generalizing b with
  | nil => rfl
  | cons i is ih =>
    rw [List.map_cons, List.foldlM_cons, List.foldlM_cons, Builder.step_move]
    cases Builder.step b i with
    | error e => rfl
    | ok next => exact ih next

/-- A fault of the items as a whole has no place of its own, so it must not be one. -/
theorem ofPostfix_move {is : List (Located (Postfix.Item Float))}
    (h : ∀ e, ofPostfix is = .error e → e.cause = .tooLong maxSize ∨ e.cause = .tooDeep maxDepth) :
    ofPostfix (is.map (Located.move f)) = (ofPostfix is).mapError (ReadError.move f) := by
  unfold ofPostfix at h ⊢
  rw [foldlM_step_move]
  cases built : is.foldlM Builder.step ⟨[], 0⟩ with
  | error e => rfl
  | ok b =>
    rw [built] at h
    obtain ⟨_ | ⟨_, _ | _⟩, _⟩ := b
    · exact absurd (h _ rfl) (by simp)
    · rfl
    · exact absurd (h _ rfl) (by simp)

end Expr
end Argand
