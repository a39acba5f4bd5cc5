import Argand.Proofs.OpenParentheses

namespace Argand.Postfix

variable {v : String} {opened : List Nat} {s : State} {ts : List (Located Token)} {length : Nat}
  {e : ReadError}

/-- Nothing is wrong, but perhaps the number of arguments of a call. -/
def RightUpToArity : Except ReadError (List (Located (Item Float))) → Prop
  | .ok _ => True
  | .error e => ∃ n expected received, e.cause = .wrongArity n expected received

/-- The tokens are a formula, or lack closing parentheses. -/
def AwaitsClosing (v : String) (ts : List (Located Token)) (length : Nat) : Prop :=
  (∃ items, read ts v length = .ok items) ∨
    ∃ p, read ts v length = .error ⟨p, .unclosedParenthesis⟩

/-- There are no tokens, or an operand is missing at the end, wherever the end is. -/
def AwaitsOperand (v : String) (ts : List (Located Token)) : Prop :=
  ∀ length, read ts v length = .error ⟨0, .emptyInput⟩ ∨
    read ts v length = .error ⟨length, .missingOperand⟩

/-- No error is met before the end of the tokens. -/
def ReachesEnd (v : String) (ts : List (Located Token)) : Prop :=
  (∀ length, AwaitsClosing v ts length) ∨ AwaitsOperand v ts

/-- The error is met at the first token behind which, whatever follows, there is no formula. -/
def Refused (v : String) (ts : List (Located Token)) (e : ReadError) : Prop :=
  ∃ k t, ts[k]? = some t ∧ e.position = t.position ∧ ReachesEnd v (ts.take k) ∧
    ∀ us length, read (ts.take (k + 1) ++ us) v length = .error e

/-- There is one closing parenthesis for each one that is open. -/
def Closes (ts closers : List (Located Token)) : Prop :=
  closers.map (·.value) = List.replicate (openParentheses ts).length .rightParen

theorem exists_refused {s : State} (h : ts.foldlM (step v) s = .error e) :
    ∃ k t s', ts[k]? = some t ∧ Runs v (ts.take k) s s' ∧ step v s' t = .error e := by
  induction ts generalizing s with
  | nil => cases h
  | cons t ts ih =>
    rw [List.foldlM_cons] at h
    cases hs : step v s t with
    | error e' =>
      rw [hs] at h
      cases h
      exact ⟨0, t, s, rfl, .nil s, hs⟩
    | ok next =>
      rw [hs] at h
      obtain ⟨k, u, s', there, run, refused⟩ := ih h
      exact ⟨k + 1, u, s', there, .cons hs run, refused⟩

/-- An error before the end is about a call, or refuses the token that is read when it is met. -/
theorem exists_refusal (h : ts.foldlM (step v) State.start = .error e) :
    ∃ k t s, ts[k]? = some t ∧ Runs v (ts.take k) State.start s ∧ step v s t = .error e ∧
      (e.cause.IsCallFault ∨
        e.cause.IsRefusal ∧ e.position = t.position ∧ ∀ f, s.expects ≠ .parenthesis f) := by
  obtain ⟨k, t, s, there, run, refused⟩ := exists_refused h
  have stepped := (nested_of_runs run).step v t
  rw [refused] at stepped
  exact ⟨k, t, s, there, run, refused, stepped⟩

theorem ne_nil_of_foldlM_error (h : ts.foldlM (step v) State.start = .error e) : ts ≠ [] := by
  rintro rfl
  cases h

theorem read_of_error (h : ts.foldlM (step v) State.start = .error e) (length : Nat) :
    read ts v length = .error e := by
  simp [read, ne_nil_of_foldlM_error h, h, bind, Except.bind]

theorem finish_operator (he : s.expects = .operator) (length : Nat) :
    (∃ items, finish s length = .ok items) ∨
      ∃ p, finish s length = .error ⟨p, .unclosedParenthesis⟩ := by
  unfold finish
  rw [he]
  dsimp only
  split
  next p _ _ _ _ _ => exact Or.inr ⟨p, rfl⟩
  next => exact Or.inl ⟨_, rfl⟩

/-- How the tokens end that are read without an error. -/
theorem ends_of_runs (run : Runs v ts State.start s) :
    s.expects = .operator ∧ (∀ length, AwaitsClosing v ts length) ∨
    s.expects = .operand ∧ AwaitsOperand v ts ∨
    ∃ f, s.expects = .parenthesis f ∧
      ∀ length, read ts v length = .error ⟨f.position, .callWithoutParenthesis f.value⟩ := by
  by_cases empty : ts = []
  · subst empty
    cases run
    exact Or.inr (Or.inl ⟨rfl, fun _ => Or.inl rfl⟩)
  · have finished (length : Nat) : read ts v length = finish s length := read_of_runs empty run length
    cases expects : s.expects with
    | operator =>
      refine Or.inl ⟨rfl, fun length => ?_⟩
      rw [AwaitsClosing, finished]
      exact finish_operator expects length
    | operand =>
      refine Or.inr (Or.inl ⟨rfl, fun length => Or.inr ?_⟩)
      rw [finished, finish, expects]
    | parenthesis f =>
      refine Or.inr (Or.inr ⟨f, rfl, fun length => ?_⟩)
      rw [finished, finish, expects]

theorem reachesEnd_of_runs (run : Runs v ts State.start s) (hf : ∀ f, s.expects ≠ .parenthesis f) :
    ReachesEnd v ts := by
  rcases ends_of_runs run with ⟨-, closing⟩ | ⟨-, operand⟩ | ⟨f, expects, -⟩
  · exact Or.inl closing
  · exact Or.inr operand
  · exact absurd expects (hf f)

theorem AwaitsClosing.cause (h : AwaitsClosing v ts length) (hr : read ts v length = .error e) :
    e.cause = .unclosedParenthesis := by
  rcases h with ⟨items, ok⟩ | ⟨p, unclosed⟩
  · cases ok.symm.trans hr
  · cases unclosed.symm.trans hr
    rfl

/-- Tokens are refused, wherever they end, or they await something. -/
theorem read_cases (v : String) (ts : List (Located Token)) :
    (∃ e, (∀ length, read ts v length = .error e) ∧
      (e.cause.IsCallFault ∨ e.cause.IsRefusal ∧ ∃ t ∈ ts, t.position = e.position)) ∨
    (∃ s, Runs v ts State.start s ∧ s.expects = .operator ∧ ∀ length, AwaitsClosing v ts length) ∨
    ∃ s, Runs v ts State.start s ∧ s.expects = .operand ∧ AwaitsOperand v ts := by
  cases run : ts.foldlM (step v) State.start with
  | error e =>
    obtain ⟨k, t, s, there, -, -, fault⟩ := exists_refusal run
    refine Or.inl ⟨e, read_of_error run, fault.imp_right fun ⟨refusal, place, _⟩ => ?_⟩
    exact ⟨refusal, t, List.mem_of_getElem? there, place.symm⟩
  | ok s =>
    rcases ends_of_runs run with closing | operand | ⟨f, -, unopened⟩
    · exact Or.inr (Or.inl ⟨s, run, closing⟩)
    · exact Or.inr (Or.inr ⟨s, run, operand⟩)
    · exact Or.inl ⟨_, unopened, Or.inl trivial⟩

theorem AwaitsClosing.exists_runs (h : AwaitsClosing v ts length) :
    ∃ s, Runs v ts State.start s ∧ s.expects = .operator := by
  rcases read_cases v ts with ⟨e, refused, fault⟩ | ⟨s, run, expects, -⟩ | ⟨s, -, -, operand⟩
  · rw [h.cause (refused length)] at fault
    exact (fault.elim id And.left).elim
  · exact ⟨s, run, expects⟩
  · rcases operand length with empty | missing
    · cases h.cause empty
    · cases h.cause missing

theorem AwaitsOperand.exists_runs (h : AwaitsOperand v ts) :
    ∃ s, Runs v ts State.start s ∧ s.expects = .operand := by
  rcases read_cases v ts with ⟨e, refused, fault⟩ | ⟨s, -, -, closing⟩ | ⟨s, run, expects, -⟩
  · rcases h (e.position + 1) with empty | missing
    · cases (refused _).symm.trans empty
      exact (fault.elim id And.left).elim
    · have same := Except.error.inj ((refused _).symm.trans missing)
      exact absurd (congrArg ReadError.position same) (Nat.ne_of_lt (Nat.lt_succ_self _))
  · rcases h 0 with empty | missing
    · cases (closing 0).cause empty
    · cases (closing 0).cause missing
  · exact ⟨s, run, expects⟩

/-- An operand that is missing where no token stands is missing at the end. -/
theorem awaitsOperand_of_missing (h : read ts v length = .error ⟨length, .missingOperand⟩)
    (free : ∀ t ∈ ts, t.position ≠ length) : AwaitsOperand v ts := by
  rcases read_cases v ts with ⟨e, refused, fault⟩ | ⟨s, -, -, closing⟩ | ⟨s, -, -, operand⟩
  · cases (refused length).symm.trans h
    rcases fault with fault | ⟨-, t, ht, place⟩
    · exact fault.elim
    · exact absurd place (free t ht)
  · cases (closing length).cause h
  · exact operand

/-- What is open can be closed, unless a call that is closed has a wrong number of arguments. -/
theorem rightUpToArity_of_closers {closers : List (Located Token)} (h : s.Nested opened)
    (he : s.expects = .operator)
    (hc : closers.map (·.value) = List.replicate opened.length .rightParen) (length : Nat) :
    RightUpToArity (closers.foldlM (step v) s >>= fun s => finish s length) := by
  induction closers generalizing s opened with
  | nil =>
    have none : opened = [] := by simpa using hc.symm
    rcases h.pending.release_all s.output with
      ⟨out, released, -⟩ | ⟨p, call, commas, rest, out, -, some, -⟩
    · change RightUpToArity (finish s length)
      rw [finish, he]
      dsimp only
      rw [released]
      trivial
    · cases none.symm.trans some
  | cons c closers ih =>
    cases opened with
    | nil => cases hc
    | cons p opened =>
      obtain ⟨closer, rest⟩ := List.cons.inj hc
      have read : step v s c = readClosing s c.position := by
        simp only [step, he, readOperator, closer]
      rw [List.foldlM_cons, read]
      rcases h.readClosing c.position with
        ⟨none, -⟩ | ⟨-, ⟨s', ok, expects, below⟩ | ⟨q, n, expected, received, error⟩⟩
      · cases none
      · rw [ok]
        exact ih below expects rest
      · rw [error]
        exact ⟨n, expected, received, rfl⟩

theorem read_append {us : List (Located Token)} (run : Runs v ts State.start s)
    (some : ts ++ us ≠ []) (length : Nat) :
    read (ts ++ us) v length = us.foldlM (step v) s >>= fun s => finish s length := by
  unfold Runs at run
  simp only [read, List.isEmpty_iff, some, if_false, List.foldlM_append, run]
  rfl

theorem AwaitsClosing.rightUpToArity {closers : List (Located Token)}
    (h : AwaitsClosing v ts length) (hc : Closes ts closers) (length' : Nat) :
    RightUpToArity (read (ts ++ closers) v length') := by
  obtain ⟨s, run, expects⟩ := h.exists_runs
  have some : ts ≠ [] := by
    rintro rfl
    cases run
    cases expects
  rw [read_append run (List.append_ne_nil_of_left_ne_nil some _)]
  exact rightUpToArity_of_closers (nested_of_runs run) expects hc length'

theorem AwaitsOperand.rightUpToArity {closers : List (Located Token)} (h : AwaitsOperand v ts)
    (hc : Closes ts closers) (a : Float) (p length : Nat) :
    RightUpToArity (read (ts ++ ⟨.number a, p⟩ :: closers) v length) := by
  obtain ⟨s, run, expects⟩ := h.exists_runs
  have number : step v s ⟨.number a, p⟩ = .ok (s.emit (.value ⟨a, 0.0⟩) p) := by
    rw [step, expects]
    rfl
  rw [read_append run (List.append_ne_nil_of_right_ne_nil _ (List.cons_ne_nil _ _)),
    List.foldlM_cons, number]
  exact rightUpToArity_of_closers ((nested_of_runs run).emit _ p) rfl hc length

/-- An error that is neither met at the end nor about a call is met at the token that it refuses. -/
theorem reachesEnd_or_refused (h : read ts v length = .error e) (hc : ¬ e.cause.IsCallFault) :
    ReachesEnd v ts ∨ Refused v ts e := by
  cases run : ts.foldlM (step v) State.start with
  | ok s =>
    rcases ends_of_runs run with ⟨-, closing⟩ | ⟨-, operand⟩ | ⟨f, -, unopened⟩
    · exact Or.inl (Or.inl closing)
    · exact Or.inl (Or.inr operand)
    · cases (unopened length).symm.trans h
      exact absurd trivial hc
  | error e' =>
    cases (read_of_error run length).symm.trans h
    obtain ⟨k, t, s, there, front, refused, fault | ⟨-, place, unopened⟩⟩ := exists_refusal run
    · exact absurd fault hc
    · refine Or.inr ⟨k, t, there, place, reachesEnd_of_runs front unopened, fun us length' => ?_⟩
      apply read_of_error
      unfold Runs at front
      rw [List.take_add_one, there]
      simp [List.foldlM_append, front, refused, bind, Except.bind]

/-- The reader complains when it must: as long as it does not, the tokens can be completed, and the
token that it refuses is the first after which they cannot. That an operand is missing at the end, and
not at a token, shows in its place. -/
theorem read_viable (v : String) (ts : List (Located Token)) :
    (∀ closers, Closes ts closers → ∀ length, AwaitsClosing v ts length →
      ∀ length', RightUpToArity (read (ts ++ closers) v length')) ∧
    (∀ closers, Closes ts closers → AwaitsOperand v ts → ∀ a p length,
      RightUpToArity (read (ts ++ ⟨.number a, p⟩ :: closers) v length)) ∧
    (∀ length, read ts v length = .error ⟨length, .missingOperand⟩ →
      (∀ t ∈ ts, t.position ≠ length) → AwaitsOperand v ts) ∧
    ∀ length e, read ts v length = .error e → ¬ e.cause.IsCallFault →
      ReachesEnd v ts ∨ Refused v ts e :=
  ⟨fun _ hc _ h => h.rightUpToArity hc, fun _ hc h => h.rightUpToArity hc,
    fun _ => awaitsOperand_of_missing, fun _ _ => reachesEnd_or_refused⟩

/-- Closed, `log(z, z, (z` is refused for its three arguments only; `log(` takes an operand; and the
second token of `z z` is refused. -/
theorem read_viable_arguments :
    RightUpToArity (read
      ([⟨.name "log", 0⟩, ⟨.leftParen, 3⟩, ⟨.name "z", 4⟩, ⟨.comma, 5⟩, ⟨.name "z", 7⟩, ⟨.comma, 8⟩,
        ⟨.leftParen, 10⟩, ⟨.name "z", 11⟩] ++ [⟨.rightParen, 12⟩, ⟨.rightParen, 13⟩]) "z" 14) ∧
    RightUpToArity (read
      ([⟨.name "log", 0⟩, ⟨.leftParen, 3⟩] ++ ⟨.number 2.0, 4⟩ :: [⟨.rightParen, 5⟩]) "z" 6) ∧
    (ReachesEnd "z" [⟨.name "z", 0⟩, ⟨.name "z", 2⟩] ∨
      Refused "z" [⟨.name "z", 0⟩, ⟨.name "z", 2⟩] ⟨2, .unexpectedToken (.name "z")⟩) := by
  have unclosed := (read_viable "z" [⟨.name "log", 0⟩, ⟨.leftParen, 3⟩, ⟨.name "z", 4⟩, ⟨.comma, 5⟩,
    ⟨.name "z", 7⟩, ⟨.comma, 8⟩, ⟨.leftParen, 10⟩, ⟨.name "z", 11⟩]).1
  have unfinished := read_viable "z" [⟨.name "log", 0⟩, ⟨.leftParen, 3⟩]
  have operand := unfinished.2.2.1 4 rfl (by decide)
  exact ⟨unclosed _ (by rfl) 12 (Or.inr ⟨10, rfl⟩) 14, unfinished.2.1 _ (by rfl) operand 2.0 4 6,
    (read_viable "z" _).2.2.2 3 ⟨2, .unexpectedToken (.name "z")⟩ rfl id⟩

end Argand.Postfix
