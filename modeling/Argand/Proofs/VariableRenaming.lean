import Argand.Postfix.Read

namespace Argand

/-- Another value at the same place. -/
def Located.map {α β : Type} (f : α → β) (t : Located α) : Located β := ⟨f t.value, t.position⟩

/-- Puts one name in the place of another. -/
def Token.rename (v v' : String) : Token → Token
  | name n => name (if n = v then v' else n)
  | t => t

/-- Renames the token that an error quotes, and no other name in an error. -/
def ReadError.rename (v v' : String) (e : ReadError) : ReadError where
  position := e.position
  cause :=
    match e.cause with
    | .unexpectedToken t => .unexpectedToken (t.rename v v')
    | cause => cause

variable {v v' n : String}

theorem Token.rename_variable (v v' : String) : (name v).rename v v' = name v' :=
  congrArg name (if_pos rfl)

theorem Token.rename_other (h : n ≠ v) : (name n).rename v v' = name n :=
  congrArg name (if_neg h)

theorem Token.rename_eq_leftParen {t : Token} : t.rename v v' = leftParen ↔ t = leftParen := by
  cases t <;> simp [rename]

/-- No token is quoted where the number of arguments is wrong. -/
theorem Builtin.rename_resolve {count : Nat} {cause : ReadError.Cause} (p : Nat)
    (h : resolve n count = .error cause) :
    ReadError.rename v v' ⟨p, cause⟩ = ⟨p, cause⟩ := by
  unfold resolve at h
  split at h
  next => cases h; rfl
  next =>
    split at h
    next => cases h
    next => cases h; rfl

namespace Postfix

variable {s : State} {t : Located Token} {ts : List (Located Token)}

/-- Where an operand begins, the variable has priority under either name. -/
theorem readOperand_rename (ht : t.value ≠ .name v') :
    readOperand v' s (t.map (Token.rename v v')) =
      (readOperand v s t).mapError (ReadError.rename v v') := by
  obtain ⟨value, p⟩ := t
  cases value with
  | name n =>
    by_cases hn : n = v
    · subst hn
      rw [Located.map, Token.rename_variable]
      simp only [readOperand, beq_self_eq_true, if_true]
      rfl
    · have hn' : n ≠ v' := fun same => ht (congrArg Token.name same)
      rw [Located.map, Token.rename_other hn]
      simp only [readOperand, beq_iff_eq, hn, hn', if_false]
      split
      next => rfl
      next => split <;> rfl
  | rightParen =>
    show readOperand v' s ⟨.rightParen, p⟩ = _
    simp only [readOperand]
    split
    next =>
      split
      next cause refused => exact congrArg Except.error (Builtin.rename_resolve _ refused).symm
      next => rfl
    next => rfl
  | _ => rfl

theorem readClosing_rename (s : State) (p : Nat) :
    (readClosing s p).mapError (ReadError.rename v v') = readClosing s p := by
  unfold readClosing
  split
  next => rfl
  next =>
    split
    next cause refused => exact congrArg Except.error (Builtin.rename_resolve _ refused)
    next => rfl
  next => rfl

theorem readComma_rename (s : State) (p : Nat) :
    (readComma s p).mapError (ReadError.rename v v') = readComma s p := by
  unfold readComma
  split <;> rfl

/-- Behind an operand a name is refused, whatever it is. -/
theorem readOperator_rename (s : State) (t : Located Token) :
    readOperator s (t.map (Token.rename v v')) =
      (readOperator s t).mapError (ReadError.rename v v') := by
  obtain ⟨value, p⟩ := t
  cases value with
  | rightParen => exact (readClosing_rename s p).symm
  | comma => exact (readComma_rename s p).symm
  | _ => rfl

theorem step_rename (ht : t.value ≠ .name v') :
    step v' s (t.map (Token.rename v v')) = (step v s t).mapError (ReadError.rename v v') := by
  unfold step
  split
  next => exact readOperand_rename ht
  next => exact readOperator_rename s t
  next f _ =>
    simp only [Located.map, Token.rename_eq_leftParen]
    split <;> rfl

/-- The states of the two runs are equal, for a state holds no name but those of calls. -/
theorem foldlM_step_rename (h : ∀ t ∈ ts, t.value ≠ .name v') (s : State) :
    (ts.map (Located.map (Token.rename v v'))).foldlM (step v') s =
      (ts.foldlM (step v) s).mapError (ReadError.rename v v') := by
  induction ts generalizing s with
  | nil => rfl
  | cons t ts ih =>
    obtain ⟨first, others⟩ := List.forall_mem_cons.mp h
    rw [List.map_cons, List.foldlM_cons, List.foldlM_cons, step_rename first]
    cases step v s t with
    | error e => rfl
    | ok next => exact ih others next

theorem finish_rename (s : State) (length : Nat) :
    (finish s length).mapError (ReadError.rename v v') = finish s length := by
  unfold finish
  split
  next => rfl
  next => rfl
  next => split <;> rfl

/-- The variable may have any name that the tokens do not use otherwise, be it that of a function
or of a constant. With another name of the variable the tokens give the same items, or the same
error at the same place, in which only a token that is quoted can have the other name. -/
theorem read_rename (h : ∀ t ∈ ts, t.value ≠ .name v') (v : String) (length : Nat) :
    read (ts.map (Located.map (Token.rename v v'))) v' length =
      (read ts v length).mapError (ReadError.rename v v') := by
  unfold read
  rw [List.isEmpty_map]
  split
  next => rfl
  next =>
    rw [foldlM_step_rename h]
    cases ts.foldlM (step v) State.start with
    | error e => rfl
    | ok s => exact (finish_rename s length).symm

/-- `e * exp(e)` in the variable `e` is `log * exp(log)` in the variable `log`, with neither the
constant nor a logarithm; and where `e e` is refused, `log log` is refused with its own name. -/
theorem read_rename_shadowed :
    read [⟨.name "log", 0⟩, ⟨.star, 4⟩, ⟨.name "exp", 6⟩, ⟨.leftParen, 9⟩, ⟨.name "log", 10⟩,
        ⟨.rightParen, 13⟩] "log" 14 =
      .ok [⟨.unknown, 0⟩, ⟨.unknown, 10⟩, ⟨.call .exp, 6⟩, ⟨.binary .mul, 4⟩] ∧
    read [⟨.name "log", 0⟩, ⟨.name "log", 4⟩] "log" 7 =
      .error ⟨4, .unexpectedToken (.name "log")⟩ := by
  constructor
  · have unused : ∀ t ∈ ([⟨.name "e", 0⟩, ⟨.star, 4⟩, ⟨.name "exp", 6⟩, ⟨.leftParen, 9⟩,
        ⟨.name "e", 10⟩, ⟨.rightParen, 13⟩] : List (Located Token)),
        t.value ≠ .name "log" := by decide
    exact (read_rename unused "e" 14).trans rfl
  · have unused : ∀ t ∈ ([⟨.name "e", 0⟩, ⟨.name "e", 4⟩] : List (Located Token)),
        t.value ≠ .name "log" := by decide
    exact (read_rename unused "e" 7).trans rfl

end Postfix
end Argand
