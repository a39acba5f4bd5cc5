import Argand.Proofs.Printable

namespace Argand

/-- A name is called in a wrong way, which is only seen at a token behind it. -/
def ReadError.Cause.IsCallFault : ReadError.Cause → Prop
  | wrongArity _ _ _ | callWithoutParenthesis _ => True
  | _ => False

/-- A token cannot stand where it stands. -/
def ReadError.Cause.IsRefusal : ReadError.Cause → Prop
  | missingOperand | unexpectedToken _ | unknownName _ | unopenedParenthesis | commaOutsideCall =>
    True
  | _ => False

theorem Builtin.resolve_error {n : String} {count : Nat} {cause : ReadError.Cause}
    (hn : isName n = true) (h : resolve n count = .error cause) :
    ∃ expected, cause = .wrongArity n expected count := by
  unfold resolve at h
  split at h
  next none =>
    obtain ⟨e, he, named⟩ := List.any_eq_true.mp hn
    exact absurd named (List.filter_eq_nil_iff.mp none e he)
  next =>
    split at h
    next => cases h
    next => cases h; exact ⟨_, rfl⟩

namespace Postfix

variable {v : String} {opened : List Nat} {pending : List Pending} {s s' : State}
  {t : Located Token} {ts : List (Located Token)} {output : List (Located (Item Float))}

/-- What a token does to the places of the parentheses that are open. -/
def bracket (opened : List Nat) (t : Located Token) : List Nat :=
  match t.value with
  | .leftParen => t.position :: opened
  | .rightParen => opened.tail
  | _ => opened

/-- The places of the parentheses that are never closed, the last one first. -/
def openParentheses (ts : List (Located Token)) : List Nat := ts.foldl bracket []

def Pending.opening? : Pending → Option Nat
  | opening p _ _ => some p
  | operator _ _ | negation _ => none

/-- The parentheses that wait are those with the given places, and calls are those of functions. -/
structure Pending.Nested (opened : List Nat) (pending : List Pending) : Prop where
  places : pending.filterMap Pending.opening? = opened
  calls : ∀ p f commas, .opening p (some f) commas ∈ pending → Builtin.isName f.value = true

/-- The state remembers the parentheses that are open. -/
structure State.Nested (opened : List Nat) (s : State) : Prop where
  pending : Pending.Nested opened s.pending
  expects : ∀ f, s.expects = .parenthesis f → Builtin.isName f.value = true

theorem nested_start : State.start.Nested [] := ⟨⟨rfl, nofun⟩, nofun⟩

theorem Pending.Nested.operator (h : Pending.Nested opened pending) (op : Operator) (p : Nat) :
    Pending.Nested opened (.operator op p :: pending) :=
  ⟨h.places, fun q f commas hq => h.calls q f commas (by simpa using hq)⟩

theorem Pending.Nested.negation (h : Pending.Nested opened pending) (p : Nat) :
    Pending.Nested opened (.negation p :: pending) :=
  ⟨h.places, fun q f commas hq => h.calls q f commas (by simpa using hq)⟩

theorem Pending.Nested.opening (h : Pending.Nested opened pending) {p : Nat}
    {call : Option (Located String)} {commas : Nat}
    (hc : ∀ f ∈ call, Builtin.isName f.value = true) :
    Pending.Nested (p :: opened) (.opening p call commas :: pending) := by
  refine ⟨congrArg (p :: ·) h.places, fun q f k hq => ?_⟩
  rcases List.mem_cons.mp hq with same | below
  · cases same
    exact hc f rfl
  · exact h.calls q f k below

/-- An operator that follows leaves the parentheses as they are. -/
theorem Pending.Nested.release (h : Pending.Nested opened pending) (leaves : Nat → Bool)
    (output : List (Located (Item Float))) :
    Pending.Nested opened (release leaves pending output).1 := by
  fun_induction Postfix.release leaves pending output with
  | case1 op position rest output leaf ih | case3 position rest output leaf ih =>
    exact ih ⟨h.places, fun q f commas hq => h.calls q f commas (List.mem_cons_of_mem _ hq)⟩
  | case2 | case4 | case5 => exact h

/-- Where everything may leave, the last parenthesis that is open comes to the top. -/
theorem Pending.Nested.release_all (h : Pending.Nested opened pending)
    (output : List (Located (Item Float))) :
    (∃ out, Postfix.release (fun _ => true) pending output = ([], out) ∧ opened = []) ∨
    ∃ p call commas rest out,
      Postfix.release (fun _ => true) pending output = (.opening p call commas :: rest, out) ∧
      opened = p :: opened.tail ∧ Pending.Nested opened.tail rest ∧
      ∀ f ∈ call, Builtin.isName f.value = true := by
  have nested := h.release (fun _ => true) output
  have blocked := blocked_release (fun _ => true) pending output
  generalize Postfix.release (fun _ => true) pending output = released at nested blocked
  obtain ⟨_ | ⟨top, rest⟩, out⟩ := released
  · exact Or.inl ⟨out, rfl, nested.places.symm⟩
  · cases top with
    | operator | negation => simp [Blocked] at blocked
    | opening p call commas =>
      obtain ⟨places, calls⟩ := nested
      subst places
      refine Or.inr ⟨p, call, commas, rest, out, rfl, rfl, ⟨rfl, fun q f k hq => ?_⟩, ?_⟩
      · exact calls q f k (List.mem_cons_of_mem _ hq)
      · rintro f rfl
        exact calls p f commas List.mem_cons_self

/-- What a step from a state with the given open parentheses makes: the next such state, or an error.
A token that is refused is the one that is read. -/
def Steps (opened : List Nat) (s : State) (t : Located Token) : Except ReadError State → Prop
  | .ok s' => s'.Nested (bracket opened t)
  | .error e => e.cause.IsCallFault ∨
    e.cause.IsRefusal ∧ e.position = t.position ∧ ∀ f, s.expects ≠ .parenthesis f

theorem State.Nested.emit (h : s.Nested opened) (item : Item Float) (p : Nat) :
    (s.emit item p).Nested opened :=
  ⟨h.pending, nofun⟩

theorem State.Nested.readOperand (h : s.Nested opened) (he : s.expects = .operand)
    (t : Located Token) : Steps opened s t (readOperand v s t) := by
  have refused {c : ReadError.Cause} (hc : c.IsRefusal) : Steps opened s t (.error ⟨t.position, c⟩) :=
    Or.inr ⟨hc, rfl, by simp [he]⟩
  obtain ⟨value, position⟩ := t
  cases value with
  | number | imaginary => exact h.emit _ _
  | leftParen => exact ⟨h.pending.opening nofun, nofun⟩
  | minus => exact ⟨h.pending.negation _, nofun⟩
  | name n =>
    unfold Postfix.readOperand
    dsimp only
    split
    next => exact h.emit _ _
    next =>
      split
      next isName =>
        refine ⟨h.pending, fun f hf => ?_⟩
        cases hf
        exact isName
      next =>
        split
        next => exact h.emit _ _
        next => exact refused trivial
  | rightParen =>
    unfold Postfix.readOperand
    dsimp only
    split
    next q f rest top =>
      have isName := h.pending.calls q f 0 (top ▸ List.mem_cons_self)
      split
      next cause wrong =>
        obtain ⟨expected, rfl⟩ := Builtin.resolve_error isName wrong
        exact Or.inl trivial
      next function found =>
        -- There is no function without arguments.
        have none := Builtin.arity_of_resolve found
        exact absurd none (Nat.ne_of_gt (Builtin.arity_pos function))
    next => exact refused trivial
  | _ => exact refused trivial

/-- A closing parenthesis closes the last one that is open, unless its call has a wrong number of
arguments. -/
theorem State.Nested.readClosing (h : s.Nested opened) (p : Nat) :
    (opened = [] ∧ readClosing s p = .error ⟨p, .unopenedParenthesis⟩) ∨
    opened ≠ [] ∧
      ((∃ s', readClosing s p = .ok s' ∧ s'.expects = .operator ∧ s'.Nested opened.tail) ∨
        ∃ q n expected received,
          readClosing s p = .error ⟨q, .wrongArity n expected received⟩) := by
  unfold Postfix.readClosing
  rcases h.pending.release_all s.output with
    ⟨out, released, none⟩ | ⟨q, call, commas, rest, out, released, some, below, isName⟩
  · exact Or.inl ⟨none, by rw [released]⟩
  · refine Or.inr ⟨some ▸ List.cons_ne_nil _ _, ?_⟩
    rw [released]
    cases call with
    | none => exact Or.inl ⟨_, rfl, rfl, below, nofun⟩
    | some f =>
      dsimp only
      cases resolved : Builtin.resolve f.value (commas + 1) with
      | error cause =>
        obtain ⟨expected, rfl⟩ := Builtin.resolve_error (isName f rfl) resolved
        exact Or.inr ⟨f.position, f.value, expected, commas + 1, rfl⟩
      | ok function => exact Or.inl ⟨_, rfl, rfl, below, nofun⟩

theorem State.Nested.readComma (h : s.Nested opened) (p : Nat) :
    readComma s p = .error ⟨p, .commaOutsideCall⟩ ∨
      ∃ s', readComma s p = .ok s' ∧ s'.Nested opened := by
  unfold Postfix.readComma
  rcases h.pending.release_all s.output with
    ⟨out, released, none⟩ | ⟨q, call, commas, rest, out, released, some, below, isName⟩
  · exact Or.inl (by rw [released])
  · rw [released]
    cases call with
    | none => exact Or.inl rfl
    | some f =>
      refine Or.inr ⟨_, rfl, ?_, nofun⟩
      rw [some]
      exact below.opening isName

theorem State.Nested.readOperator (h : s.Nested opened) (he : s.expects = .operator)
    (t : Located Token) : Steps opened s t (readOperator s t) := by
  have refused {c : ReadError.Cause} (hc : c.IsRefusal) : Steps opened s t (.error ⟨t.position, c⟩) :=
    Or.inr ⟨hc, rfl, by simp [he]⟩
  obtain ⟨value, position⟩ := t
  cases value with
  | number | imaginary | name | leftParen => exact refused trivial
  | rightParen =>
    change Steps opened s _ (Postfix.readClosing s position)
    rcases h.readClosing position with
      ⟨-, error⟩ | ⟨-, ⟨s', ok, -, nested⟩ | ⟨q, n, expected, received, error⟩⟩
    · rw [error]
      exact refused trivial
    · rw [ok]
      exact nested
    · rw [error]
      exact Or.inl trivial
  | comma =>
    change Steps opened s _ (Postfix.readComma s position)
    rcases h.readComma position with error | ⟨s', ok, nested⟩
    · rw [error]
      exact refused trivial
    · rw [ok]
      exact nested
  | _ => exact ⟨(h.pending.release _ _).operator _ _, nofun⟩

theorem State.Nested.step (h : s.Nested opened) (v : String) (t : Located Token) :
    Steps opened s t (step v s t) := by
  unfold Postfix.step
  split
  next expects => exact h.readOperand expects t
  next expects => exact h.readOperator expects t
  next f expects =>
    split
    next value =>
      rw [Steps, bracket, value]
      refine ⟨h.pending.opening fun g hg => ?_, nofun⟩
      cases hg
      exact h.expects f expects
    next => exact Or.inl trivial

theorem State.Nested.runs (h : s.Nested opened) (hr : Runs v ts s s') :
    s'.Nested (ts.foldl bracket opened) := by
  induction ts generalizing s opened with
  | nil => cases hr; exact h
  | cons t ts ih =>
    have stepped := h.step v t
    rw [Runs, List.foldlM_cons] at hr
    cases hs : Postfix.step v s t with
    | error e => simp [hs, bind, Except.bind] at hr
    | ok next =>
      rw [hs] at hr stepped
      exact ih stepped hr

theorem nested_of_runs (hr : Runs v ts State.start s) : s.Nested (openParentheses ts) :=
  nested_start.runs hr

end Postfix
end Argand
