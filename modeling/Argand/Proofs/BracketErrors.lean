import Argand.Proofs.ViablePrefix

namespace Argand

/-- A closing parenthesis or a comma has no opening parenthesis that it belongs to. -/
def ReadError.Cause.IsBracketFault : ReadError.Cause → Prop
  | unopenedParenthesis | commaOutsideCall => True
  | _ => False

namespace Postfix

variable {v : String} {opened : List Nat} {s s' : State} {t : Located Token} {p : Nat}
  {ts : List (Located Token)} {call : Option (Located String)} {commas length : Nat}

/-- The tokens end with the name of a function. -/
def EndsInFunction (ts : List (Located Token)) : Prop :=
  ∃ n q, Builtin.isName n = true ∧ [⟨.name n, q⟩] <:+ ts

/-- The parenthesis with the given place stands right behind the name of a function. -/
def FollowsFunction (ts : List (Located Token)) (p : Nat) : Prop :=
  ∃ n q, Builtin.isName n = true ∧ [⟨.name n, q⟩, ⟨.leftParen, p⟩] <:+: ts

theorem endsInFunction_snoc :
    EndsInFunction (ts ++ [t]) ↔ ∃ n, Builtin.isName n = true ∧ t.value = .name n := by
  constructor
  · rintro ⟨n, q, isName, suffix⟩
    obtain ⟨us, eq, -⟩ := (List.suffix_concat_iff.mp suffix).resolve_left (List.cons_ne_nil _ _)
    have last := List.append_inj_right' (show [] ++ [_] = us ++ [t] from eq) rfl
    exact ⟨n, isName, congrArg Located.value (List.singleton_inj.mp last).symm⟩
  · rintro ⟨n, isName, value⟩
    refine ⟨n, t.position, isName, ?_⟩
    rw [← value]
    exact List.suffix_append ts [t]

theorem followsFunction_snoc :
    FollowsFunction (ts ++ [t]) p ↔
      t = ⟨.leftParen, p⟩ ∧ EndsInFunction ts ∨ FollowsFunction ts p := by
  constructor
  · rintro ⟨n, q, isName, within⟩
    refine (List.infix_concat_iff.mp within).imp (fun suffix => ?_)
      fun before => ⟨n, q, isName, before⟩
    obtain ⟨us, eq, ends⟩ := (List.suffix_concat_iff.mp suffix).resolve_left (List.cons_ne_nil _ _)
    obtain ⟨rfl, last⟩ := List.append_inj' (show [_] ++ [_] = us ++ [t] from eq) rfl
    exact ⟨(List.singleton_inj.mp last).symm, n, q, isName, ends⟩
  · rintro (⟨rfl, n, q, isName, us, rfl⟩ | ⟨n, q, isName, within⟩)
    · refine ⟨n, q, isName, List.IsSuffix.isInfix ⟨us, ?_⟩⟩
      rw [List.append_assoc, List.singleton_append]
    · exact ⟨n, q, isName, within.trans (List.prefix_append ts [t]).isInfix⟩

theorem FollowsFunction.mem_positions (h : FollowsFunction ts p) : p ∈ ts.map (·.position) := by
  obtain ⟨n, q, -, within⟩ := h
  exact List.mem_map_of_mem (within.subset (List.mem_cons_of_mem _ List.mem_cons_self))

theorem release_suffix (leaves : Nat → Bool) (pending : List Pending)
    (output : List (Located (Item Float))) : (release leaves pending output).1 <:+ pending := by
  fun_induction release leaves pending output with
  | case1 op position rest output leaf ih => exact ih.trans (List.suffix_cons _ _)
  | case3 position rest output leaf ih => exact ih.trans (List.suffix_cons _ _)
  | case2 | case4 | case5 => exact List.suffix_refl _

/-- What reading a token does to the parentheses that wait, and which tokens lead to an operand or
to the parenthesis of a call. -/
structure Moves (s : State) (t : Located Token) (s' : State) : Prop where
  /-- Only the token itself can be a new parenthesis, that of a call right behind its name. -/
  openings : ∀ p call commas, .opening p call commas ∈ s'.pending →
    (∃ k, .opening p call k ∈ s.pending) ∨ t = ⟨.leftParen, p⟩ ∧
      (s.expects = .operand ∧ call = none ∨ ∃ f, s.expects = .parenthesis f ∧ call = some f)
  operand : s'.expects = .operand → ∀ n, t.value ≠ .name n
  function : ∀ f, s'.expects = .parenthesis f →
    t.value = .name f.value ∧ Builtin.isName f.value = true

theorem moves_emit (s : State) (t : Located Token) (item : Item Float) (p : Nat) :
    Moves s t (s.emit item p) :=
  ⟨fun _ _ k hm => Or.inl ⟨k, hm⟩, nofun, nofun⟩

theorem moves_readOperand (he : s.expects = .operand) (h : readOperand v s t = .ok s') :
    Moves s t s' := by
  obtain ⟨value, position⟩ := t
  unfold readOperand at h
  cases value with
  | number | imaginary =>
    cases h
    exact moves_emit _ _ _ _
  | leftParen =>
    cases h
    refine ⟨fun p call commas hm => ?_, fun _ => nofun, nofun⟩
    rcases List.mem_cons.mp hm with same | below
    · cases same
      exact Or.inr ⟨rfl, Or.inl ⟨he, rfl⟩⟩
    · exact Or.inl ⟨commas, below⟩
  | minus =>
    cases h
    refine ⟨fun p call commas hm => Or.inl ⟨commas, ?_⟩, fun _ => nofun, nofun⟩
    exact (List.mem_cons.mp hm).resolve_left nofun
  | name n =>
    dsimp only at h
    split at h
    next =>
      cases h
      exact moves_emit _ _ _ _
    next =>
      split at h
      next isName =>
        cases h
        refine ⟨fun p call commas hm => Or.inl ⟨commas, hm⟩, nofun, fun f hf => ?_⟩
        cases hf
        exact ⟨rfl, isName⟩
      next =>
        split at h
        next =>
          cases h
          exact moves_emit _ _ _ _
        next => cases h
  | rightParen =>
    dsimp only at h
    split at h
    next => split at h <;> cases h
    next => cases h
  | _ => cases h

theorem moves_readBinary (op : Operator) (ht : ∀ n, t.value ≠ .name n)
    (h : readBinary s op t.position = .ok s') : Moves s t s' := by
  cases h
  refine ⟨fun p call commas hm => Or.inl ⟨commas, ?_⟩, fun _ => ht, nofun⟩
  have below := (List.mem_cons.mp hm).resolve_left nofun
  exact (release_suffix _ _ _).subset below

theorem moves_readClosing (h : readClosing s p = .ok s') : Moves s t s' := by
  have suffix := release_suffix (fun _ => true) s.pending s.output
  unfold readClosing at h
  split at h
  next released =>
    cases h
    rw [released] at suffix
    exact ⟨fun _ _ k hm => Or.inl ⟨k, suffix.subset (List.mem_cons_of_mem _ hm)⟩, nofun, nofun⟩
  next released =>
    split at h
    next => cases h
    next =>
      cases h
      rw [released] at suffix
      exact ⟨fun _ _ k hm => Or.inl ⟨k, suffix.subset (List.mem_cons_of_mem _ hm)⟩, nofun, nofun⟩
  next => cases h

theorem moves_readComma (ht : t.value = .comma) (h : readComma s p = .ok s') : Moves s t s' := by
  have suffix := release_suffix (fun _ => true) s.pending s.output
  unfold readComma at h
  split at h
  next q f k rest output released =>
    cases h
    rw [released] at suffix
    refine ⟨fun p call commas hm => Or.inl ?_, fun _ n => by rw [ht]; nofun, nofun⟩
    -- The parenthesis of the call counts one comma more, and is the same otherwise.
    rcases List.mem_cons.mp hm with same | below
    · cases same
      exact ⟨k, suffix.subset List.mem_cons_self⟩
    · exact ⟨commas, suffix.subset (List.mem_cons_of_mem _ below)⟩
  next => cases h

theorem moves_of_step (h : step v s t = .ok s') : Moves s t s' := by
  unfold step at h
  split at h
  next expects => exact moves_readOperand expects h
  next expects =>
    obtain ⟨value, position⟩ := t
    cases value with
    | number | imaginary | name | leftParen => cases h
    | rightParen => exact moves_readClosing h
    | comma => exact moves_readComma rfl h
    | _ => exact moves_readBinary _ (fun _ => nofun) h
  next f expects =>
    split at h
    next value =>
      cases h
      refine ⟨fun p call commas hm => ?_, fun _ n => by rw [value]; nofun, nofun⟩
      rcases List.mem_cons.mp hm with same | below
      · cases same
        exact Or.inr ⟨by rw [← value], Or.inr ⟨f, expects, rfl⟩⟩
      · exact Or.inl ⟨commas, below⟩
    next => cases h

/-- The state knows which of the parentheses that wait stand right behind the name of a function. -/
structure State.Marked (ts : List (Located Token)) (s : State) : Prop where
  openings : ∀ p call commas, .opening p call commas ∈ s.pending →
    p ∈ ts.map (·.position) ∧ (call.isSome ↔ FollowsFunction ts p)
  operand : s.expects = .operand → ¬ EndsInFunction ts
  function : ∀ f, s.expects = .parenthesis f → EndsInFunction ts

theorem marked_start : State.start.Marked [] := by
  refine ⟨nofun, fun _ => ?_, nofun⟩
  rintro ⟨n, q, -, suffix⟩
  cases List.suffix_nil.mp suffix

/-- A token behind all others moves a marked state to a marked state. -/
theorem State.Marked.step (h : s.Marked ts) (behind : ∀ u ∈ ts, u.position < t.position)
    (hs : step v s t = .ok s') : s'.Marked (ts ++ [t]) := by
  have moves := moves_of_step hs
  have fresh {p : Nat} (hp : p ∈ ts.map (·.position)) : t ≠ ⟨.leftParen, p⟩ := by
    rintro rfl
    obtain ⟨u, hu, rfl⟩ := List.mem_map.mp hp
    exact Nat.lt_irrefl _ (behind u hu)
  refine ⟨fun p call commas hm => ?_, fun he => ?_, fun f he => ?_⟩
  · rw [followsFunction_snoc, List.map_append]
    rcases moves.openings p call commas hm with ⟨k, before⟩ | ⟨read, expects⟩
    · obtain ⟨place, marked⟩ := h.openings p call k before
      refine ⟨List.mem_append_left _ place, marked.trans ⟨Or.inr, fun follows => ?_⟩⟩
      exact follows.resolve_left fun read => fresh place read.1
    · refine ⟨List.mem_append_right _ (by rw [read]; exact List.mem_singleton_self p), ?_⟩
      rcases expects with ⟨expects, rfl⟩ | ⟨f, expects, rfl⟩
      · refine ⟨nofun, fun follows => ?_⟩
        rcases follows with ⟨-, ends⟩ | earlier
        · exact absurd ends (h.operand expects)
        · exact absurd read (fresh earlier.mem_positions)
      · exact ⟨fun _ => Or.inl ⟨read, h.function f expects⟩, fun _ => rfl⟩
  · rw [endsInFunction_snoc]
    rintro ⟨n, -, value⟩
    exact moves.operand he n value
  · obtain ⟨value, isName⟩ := moves.function f he
    exact endsInFunction_snoc.mpr ⟨f.value, isName, value⟩

theorem Runs.of_snoc (h : Runs v (ts ++ [t]) s s') :
    ∃ s'', Runs v ts s s'' ∧ step v s'' t = .ok s' := by
  unfold Runs at h ⊢
  rw [List.foldlM_append] at h
  cases hs : ts.foldlM (Postfix.step v) s with
  | error e =>
    rw [hs] at h
    cases h
  | ok s'' =>
    rw [hs] at h
    refine ⟨s'', rfl, ?_⟩
    cases last : Postfix.step v s'' t with
    | error e => simp [last, bind, Except.bind] at h
    | ok next => simpa [last, bind, Except.bind, pure, Except.pure] using h

theorem marked_of_runs (rising : ts.Pairwise fun t u => t.position < u.position)
    (run : Runs v ts State.start s) : s.Marked ts := by
  induction ts using List.reverseRecOn generalizing s with
  | nil =>
    cases run
    exact marked_start
  | append_singleton ts t ih =>
    obtain ⟨before, run, last⟩ := run.of_snoc
    obtain ⟨front, -, behind⟩ := List.pairwise_append.mp rising
    exact (ih front run).step (fun u hu => behind u hu t (List.mem_singleton_self t)) last

/-- At the end of the tokens the last parenthesis that is open is found. -/
theorem State.Nested.finish (h : s.Nested opened) (he : s.expects = .operator) (length : Nat) :
    (opened = [] ∧ ∃ items, finish s length = .ok items) ∨
      ∃ p, opened.head? = some p ∧ finish s length = .error ⟨p, .unclosedParenthesis⟩ := by
  unfold Postfix.finish
  rw [he]
  dsimp only
  rcases h.pending.release_all s.output with
    ⟨out, released, none⟩ | ⟨p, call, commas, rest, out, released, some, -⟩
  · rw [released]
    exact Or.inl ⟨none, _, rfl⟩
  · rw [released, some]
    exact Or.inr ⟨p, rfl, rfl⟩

/-- A comma is refused outside parentheses and in those that are not of a call. -/
theorem State.Marked.readComma (marked : s.Marked ts) (nested : s.Nested opened) (p : Nat) :
    readComma s p = .error ⟨p, .commaOutsideCall⟩ ↔
      ∀ q ∈ opened.head?, ¬ FollowsFunction ts q := by
  have suffix := release_suffix (fun _ => true) s.pending s.output
  unfold Postfix.readComma
  rcases nested.pending.release_all s.output with
    ⟨out, released, none⟩ | ⟨q, call, commas, rest, out, released, some, -⟩
  · rw [released, none]
    exact ⟨fun _ => nofun, fun _ => rfl⟩
  · rw [released] at suffix
    have follows := (marked.openings q call commas (suffix.subset List.mem_cons_self)).2
    rw [released, some]
    cases call with
    | none =>
      refine ⟨fun _ r hr => ?_, fun _ => rfl⟩
      cases hr
      exact fun hf => Bool.noConfusion (follows.mpr hf)
    | some f => exact ⟨nofun, fun outside => absurd (follows.mp rfl) (outside q rfl)⟩

theorem State.Nested.readOperand_cause (h : s.Nested opened) {e : ReadError}
    (hr : Postfix.readOperand v s t = .error e) : ¬ e.cause.IsBracketFault := by
  obtain ⟨value, position⟩ := t
  unfold Postfix.readOperand at hr
  cases value with
  | number | imaginary | leftParen | minus => cases hr
  | name n =>
    dsimp only at hr
    split at hr
    next => cases hr
    next =>
      split at hr
      next => cases hr
      next =>
        split at hr
        next => cases hr
        next =>
          cases hr
          exact id
  | rightParen =>
    dsimp only at hr
    split at hr
    next q f rest top =>
      have isName := h.pending.calls q f 0 (top ▸ List.mem_cons_self)
      split at hr
      next cause wrong =>
        obtain ⟨expected, rfl⟩ := Builtin.resolve_error isName wrong
        cases hr
        exact id
      next =>
        cases hr
        exact id
    next =>
      cases hr
      exact id
  | _ =>
    cases hr
    exact id

/-- Where brackets are wrong, an operand has been read in full. -/
theorem State.Nested.step_cause (h : s.Nested opened) {e : ReadError}
    (hs : Postfix.step v s t = .error e) (hc : e.cause.IsBracketFault) : s.expects = .operator ∧
      (t = ⟨.rightParen, e.position⟩ ∧ opened = [] ∧ e.cause = .unopenedParenthesis ∨
        t = ⟨.comma, e.position⟩ ∧ e.cause = .commaOutsideCall ∧
          Postfix.readComma s e.position = .error ⟨e.position, .commaOutsideCall⟩) := by
  unfold Postfix.step at hs
  split at hs
  next => exact absurd hc (h.readOperand_cause hs)
  next expects =>
    refine ⟨expects, ?_⟩
    obtain ⟨value, position⟩ := t
    cases value with
    | rightParen =>
      change Postfix.readClosing s position = _ at hs
      rcases h.readClosing position with
        ⟨none, error⟩ | ⟨-, ⟨s', ok, -⟩ | ⟨q, n, expected, received, error⟩⟩
      · cases error.symm.trans hs
        exact Or.inl ⟨rfl, none, rfl⟩
      · cases ok.symm.trans hs
      · cases error.symm.trans hs
        exact hc.elim
    | comma =>
      change Postfix.readComma s position = _ at hs
      rcases h.readComma position with error | ⟨s', ok, -⟩
      · cases error.symm.trans hs
        exact Or.inr ⟨rfl, rfl, error⟩
      · cases ok.symm.trans hs
    | number | imaginary | name | leftParen =>
      cases hs
      exact hc.elim
    | _ => cases hs
  next f expects =>
    split at hs
    next => cases hs
    next =>
      cases hs
      exact hc.elim

/-- Wrong brackets are met at a token, in front of which there is at most a parenthesis to close. -/
theorem exists_front_of_read {e : ReadError} (h : read ts v length = .error e)
    (hc : e.cause.IsBracketFault) : ∃ front t back s, ts = front ++ t :: back ∧
      Runs v front State.start s ∧ step v s t = .error e := by
  cases run : ts.foldlM (step v) State.start with
  | error e' =>
    cases (read_of_error run length).symm.trans h
    obtain ⟨k, t, s, there, front, refused⟩ := exists_refused run
    refine ⟨ts.take k, t, ts.drop (k + 1), s, ?_, front, refused⟩
    obtain ⟨hk, rfl⟩ := List.getElem?_eq_some_iff.mp there
    rw [List.getElem_cons_drop, List.take_append_drop]
  | ok s =>
    rcases ends_of_runs run with ⟨-, closing⟩ | ⟨-, operand⟩ | ⟨f, -, unopened⟩
    · rw [(closing length).cause h] at hc
      exact hc.elim
    · rcases operand length with empty | missing
      · cases empty.symm.trans h
        exact hc.elim
      · cases missing.symm.trans h
        exact hc.elim
    · cases (unopened length).symm.trans h
      exact hc.elim

theorem read_of_step_error {front back : List (Located Token)} {e : ReadError}
    (run : Runs v front State.start s) (h : step v s t = .error e) (length : Nat) :
    read (front ++ t :: back) v length = .error e := by
  rw [read_append run (List.append_ne_nil_of_right_ne_nil _ (List.cons_ne_nil _ _)),
    List.foldlM_cons, h]
  rfl

theorem awaitsClosing_iff_runs : AwaitsClosing v ts length ↔
    ∃ s, Runs v ts State.start s ∧ s.expects = .operator := by
  refine ⟨fun h => h.exists_runs, fun ⟨s, run, expects⟩ => ?_⟩
  rcases ends_of_runs run with ⟨-, closing⟩ | ⟨operand, -⟩ | ⟨f, parenthesis, -⟩
  · exact closing length
  · cases expects.symm.trans operand
  · cases expects.symm.trans parenthesis

/-- What awaits nothing but closing parentheses is read as a whole if none is open, and otherwise
lacks that of the last one. -/
theorem AwaitsClosing.read (h : AwaitsClosing v ts length) :
    (openParentheses ts = [] ∧ ∃ items, read ts v length = .ok items) ∨
      ∃ p, (openParentheses ts).head? = some p ∧
        read ts v length = .error ⟨p, .unclosedParenthesis⟩ := by
  obtain ⟨s, run, expects⟩ := h.exists_runs
  have some : ts ≠ [] := by
    rintro rfl
    cases run
    cases expects
  rw [read_of_runs some run]
  exact (nested_of_runs run).finish expects length

theorem read_unopened_iff (length' : Nat) : read ts v length = .error ⟨p, .unopenedParenthesis⟩ ↔
    ∃ front back items, ts = front ++ ⟨.rightParen, p⟩ :: back ∧
      read front v length' = .ok items := by
  constructor
  · intro h
    obtain ⟨front, t, back, s, rfl, run, refused⟩ := exists_front_of_read h trivial
    obtain ⟨expects, ⟨rfl, none, -⟩ | ⟨-, other, -⟩⟩ :=
      (nested_of_runs run).step_cause refused trivial
    · have closing : AwaitsClosing v front length' := awaitsClosing_iff_runs.mpr ⟨s, run, expects⟩
      rcases closing.read with ⟨-, items, ok⟩ | ⟨q, head, -⟩
      · exact ⟨front, back, items, rfl, ok⟩
      · rw [none] at head
        cases head
    · cases other
  · rintro ⟨front, back, items, rfl, ok⟩
    have closing : AwaitsClosing v front length' := Or.inl ⟨items, ok⟩
    obtain ⟨s, run, expects⟩ := closing.exists_runs
    refine read_of_step_error run ?_ length
    rw [step, expects]
    rcases (nested_of_runs run).readClosing p with ⟨-, error⟩ | ⟨some, -⟩
    · exact error
    · rcases closing.read with ⟨none, -⟩ | ⟨q, -, unclosed⟩
      · exact absurd none some
      · cases ok.symm.trans unclosed

theorem head?_openParentheses_of_unclosed
    (h : read ts v length = .error ⟨p, .unclosedParenthesis⟩) :
    (openParentheses ts).head? = some p := by
  have closing : AwaitsClosing v ts length := Or.inr ⟨p, h⟩
  rcases closing.read with ⟨-, items, ok⟩ | ⟨q, head, unclosed⟩
  · cases ok.symm.trans h
  · cases unclosed.symm.trans h
    exact head

theorem read_commaOutsideCall_iff (rising : ts.Pairwise fun t u => t.position < u.position) :
    read ts v length = .error ⟨p, .commaOutsideCall⟩ ↔
      ∃ front back, ts = front ++ ⟨.comma, p⟩ :: back ∧ AwaitsClosing v front length ∧
        ∀ q ∈ (openParentheses front).head?, ¬ FollowsFunction front q := by
  constructor
  · intro h
    obtain ⟨front, t, back, s, rfl, run, refused⟩ := exists_front_of_read h trivial
    have marked := marked_of_runs (List.pairwise_append.mp rising).1 run
    have nested := nested_of_runs run
    obtain ⟨expects, ⟨-, -, other⟩ | ⟨rfl, -, outside⟩⟩ := nested.step_cause refused trivial
    · cases other
    · exact ⟨front, back, rfl, awaitsClosing_iff_runs.mpr ⟨s, run, expects⟩,
        (marked.readComma nested p).mp outside⟩
  · rintro ⟨front, back, rfl, closing, outside⟩
    obtain ⟨s, run, expects⟩ := closing.exists_runs
    have marked := marked_of_runs (List.pairwise_append.mp rising).1 run
    refine read_of_step_error run ?_ length
    rw [step, expects]
    exact (marked.readComma (nested_of_runs run) p).mpr outside

/-- Errors about parentheses and commas are those of ordinary bracket matching: a closing
parenthesis is unopened right behind what is a formula by itself; an opening one is unclosed if it
is the last that stays open; and a comma is misplaced, where it could follow, if the innermost
parenthesis around it is not that of a call or there is none. -/
theorem read_bracket_errors (v : String) {ts : List (Located Token)}
    (rising : ts.Pairwise fun t u => t.position < u.position) (length length' p : Nat) :
    (read ts v length = .error ⟨p, .unopenedParenthesis⟩ ↔
      ∃ front back items, ts = front ++ ⟨.rightParen, p⟩ :: back ∧
        read front v length' = .ok items) ∧
    (read ts v length = .error ⟨p, .unclosedParenthesis⟩ → (openParentheses ts).head? = some p) ∧
    (read ts v length = .error ⟨p, .commaOutsideCall⟩ ↔
      ∃ front back, ts = front ++ ⟨.comma, p⟩ :: back ∧ AwaitsClosing v front length ∧
        ∀ q ∈ (openParentheses front).head?, ¬ FollowsFunction front q) :=
  ⟨read_unopened_iff length', head?_openParentheses_of_unclosed, read_commaOutsideCall_iff rising⟩

/-- In `log((z, z)` the comma stands in the inner parentheses, which are not those of the call; and
the parenthesis behind `(z)` is one too many. -/
theorem read_bracket_errors_inner :
    (read [⟨.name "log", 0⟩, ⟨.leftParen, 3⟩, ⟨.leftParen, 4⟩, ⟨.name "z", 5⟩, ⟨.comma, 6⟩,
        ⟨.name "z", 8⟩, ⟨.rightParen, 9⟩] "z" 10 = .error ⟨6, .commaOutsideCall⟩ ∧
      ∃ front back, [⟨.name "log", 0⟩, ⟨.leftParen, 3⟩, ⟨.leftParen, 4⟩, ⟨.name "z", 5⟩,
          ⟨.comma, 6⟩, ⟨.name "z", 8⟩, ⟨.rightParen, 9⟩] = front ++ ⟨.comma, 6⟩ :: back ∧
        AwaitsClosing "z" front 10 ∧
        ∀ q ∈ (openParentheses front).head?, ¬ FollowsFunction front q) ∧
    read [⟨.leftParen, 0⟩, ⟨.name "z", 1⟩, ⟨.rightParen, 2⟩, ⟨.rightParen, 3⟩] "z" 4 =
      .error ⟨3, .unopenedParenthesis⟩ :=
  ⟨⟨rfl, (read_bracket_errors "z" (by decide) 10 10 6).2.2.mp rfl⟩,
    (read_bracket_errors "z" (by decide) 4 3 3).1.mpr
      ⟨[⟨.leftParen, 0⟩, ⟨.name "z", 1⟩, ⟨.rightParen, 2⟩], [], _, rfl, rfl⟩⟩

end Postfix
end Argand
