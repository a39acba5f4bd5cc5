import Argand.Proofs.Postorder
import Argand.Proofs.Release
import Argand.Proofs.TokenItems

namespace Argand.Postfix

variable {v : String} {l : Phrase} {op : Operator} {ts us : List (Located Token)} {x y : Expr Float}
  {s s' s'' : State} {pending : List Pending} {output : List (Located (Item Float))}

def Runs (v : String) (ts : List (Located Token)) (s s' : State) : Prop :=
  ts.foldlM (step v) s = .ok s'

theorem Runs.nil (s : State) : Runs v [] s s := rfl

theorem Runs.cons {t : Located Token} (h : step v s t = .ok s') (hr : Runs v ts s' s'') :
    Runs v (t :: ts) s s'' := by
  simp only [Runs, List.foldlM_cons, h]
  exact hr

theorem Runs.append (h : Runs v ts s s') (hr : Runs v us s' s'') : Runs v (ts ++ us) s s'' := by
  unfold Runs at h hr ⊢
  rw [List.foldlM_append, h]
  exact hr

theorem Runs.snoc {t : Located Token} (h : Runs v ts s s') (hr : step v s' t = .ok s'') :
    Runs v (ts ++ [t]) s s'' :=
  h.append (Runs.cons hr (.nil s''))

/-- An operator with the phrase on its left releases nothing of what is pending before it. -/
def Waits (l : Phrase) (pending : List Pending) : Prop :=
  ∀ op : Operator, op.left = l → Blocked (goesBefore op) pending

theorem waits_opening (l : Phrase) (p : Nat) (call : Option (Located String)) (commas : Nat)
    (pending : List Pending) : Waits l (.opening p call commas :: pending) :=
  fun _ _ => trivial

theorem waits_unary (pending : List Pending) : Waits .unary pending := by
  intro op h
  cases op <;> simp [Operator.left] at h

theorem waits_right (op : Operator) (p : Nat) (pending : List Pending) :
    Waits op.right (.operator op p :: pending) := by
  intro op' h
  cases op <;> cases op' <;> simp_all [Operator.left, Operator.right] <;> rfl

theorem Waits.left (h : Waits op.phrase pending) : Waits op.left pending := by
  cases op with
  | pow =>
    intro op' h'
    cases op' <;> simp [Operator.left] at h'
    exact blocked_pow pending
  | _ => exact h

theorem Waits.loosen (h : Waits l.looser pending) : Waits l pending := by
  intro op hop
  cases op with
  | pow => exact blocked_pow pending
  | add | sub => subst l; exact h _ rfl
  | mul | div =>
    subst l
    have hs := h .add rfl
    rcases pending with _ | ⟨⟨⟨⟩, _⟩ | _ | _, _⟩ <;>
      first | exact absurd hs Bool.noConfusion | trivial

/-- A phrase has been read: what its own operators still keep leaves in front of whatever may follow
the phrase, and then the former pending operators and the given output are left. -/
def Settled (l : Phrase) (s : State) (pending : List Pending)
    (output : List (Located (Item Float))) : Prop :=
  s.expects = .operator ∧ ∀ leaves : Nat → Bool, (∀ n, l.precedence ≤ n → leaves n = true) →
    release leaves s.pending s.output = release leaves pending output

theorem settled_emit (l : Phrase) (item : Item Float) (p : Nat) (pending : List Pending)
    (output : List (Located (Item Float))) :
    Settled l ((State.mk output pending .operand).emit item p) pending (⟨item, p⟩ :: output) :=
  ⟨rfl, fun _ _ => rfl⟩

theorem Settled.loosen (h : Settled l s pending output) : Settled l.looser s pending output :=
  ⟨h.1, fun leaves hl => h.2 leaves fun n hn => hl n (Nat.le_trans l.precedence_looser_le hn)⟩

theorem Settled.negation {p : Nat} (h : Settled .unary s (.negation p :: pending) output) :
    Settled .unary s pending (⟨.negate, p⟩ :: output) := by
  refine ⟨h.1, fun leaves hl => ?_⟩
  rw [h.2 leaves hl, release_negation (hl _ (Nat.le_refl _))]

theorem Settled.operator {p : Nat} (h : Settled op.right s (.operator op p :: pending) output) :
    Settled op.phrase s pending (⟨.binary op, p⟩ :: output) := by
  refine ⟨h.1, fun leaves hl => ?_⟩
  have right : op.phrase.precedence ≤ op.right.precedence := by cases op <;> decide
  have self : op.phrase.precedence ≤ op.precedence := by cases op <;> decide
  rw [h.2 leaves fun n hn => hl n (Nat.le_trans right hn), release_operator (hl _ self)]

theorem Settled.step_binary (h : Settled op.left s pending output) (hw : Waits op.left pending)
    (p : Nat) :
    step v s ⟨op.token, p⟩ = .ok ⟨output, .operator op p :: pending, .operand⟩ := by
  have leaves : ∀ n, op.left.precedence ≤ n → goesBefore op n = true := by
    intro n hn
    cases op with
    | pow => exact decide_eq_true hn
    | _ => exact decide_eq_true hn
  have released : release (goesBefore op) s.pending s.output = (pending, output) := by
    rw [h.2 _ leaves, release_of_blocked (hw op rfl)]
  have binary : step v s ⟨op.token, p⟩ = readBinary s op p := by
    simp only [step, h.1]
    cases op <;> rfl
  rw [binary, readBinary, released]

theorem Settled.release_all (h : Settled l s pending output) :
    release (fun _ => true) s.pending s.output = release (fun _ => true) pending output :=
  h.2 _ fun _ _ => rfl

theorem Settled.step_closing {p q : Nat}
    (h : Settled l s (.opening q none 0 :: pending) output) :
    step v s ⟨.rightParen, p⟩ = .ok ⟨output, pending, .operator⟩ := by
  simp only [step, h.1, readOperator, readClosing, h.release_all, release]

theorem Settled.step_closing_call {p q commas : Nat} {g : Located String} {f : Builtin}
    (h : Settled l s (.opening q (some g) commas :: pending) output)
    (hr : Builtin.resolve g.value (commas + 1) = .ok f) :
    step v s ⟨.rightParen, p⟩ = .ok ⟨⟨.call f, g.position⟩ :: output, pending, .operator⟩ := by
  simp only [step, h.1, readOperator, readClosing, h.release_all, release, hr]

theorem Settled.step_comma {p q commas : Nat} {g : Located String}
    (h : Settled l s (.opening q (some g) commas :: pending) output) :
    step v s ⟨.comma, p⟩ =
      .ok ⟨output, .opening q (some g) (commas + 1) :: pending, .operand⟩ := by
  simp only [step, h.1, readOperator, readComma, h.release_all, release]

theorem step_variable (s : State) (hs : s.expects = .operand) (p : Nat) :
    step v s ⟨.name v, p⟩ = .ok (s.emit .unknown p) := by
  simp [step, hs, readOperand]

theorem step_constant {n : String} {c : Complex Float} (hs : s.expects = .operand) (hv : n ≠ v)
    (hf : Builtin.isName n = false) (hc : constant? n = some c) (p : Nat) :
    step v s ⟨.name n, p⟩ = .ok (s.emit (.value c) p) := by
  simp [step, hs, readOperand, hv, hf, hc]

theorem step_function {n : String} (hs : s.expects = .operand) (hv : n ≠ v)
    (hf : Builtin.isName n = true) (p : Nat) :
    step v s ⟨.name n, p⟩ = .ok { s with expects := .parenthesis ⟨n, p⟩ } := by
  simp [step, hs, readOperand, hv, hf]

mutual

/-- Reading a phrase puts out its tree in postfix order, with the items of its tokens. -/
theorem runs_of_derives {l : Phrase} {ts : List (Located Token)} {x : Expr Float}
    (h : Derives v l ts x) (pending : List Pending) (output : List (Located (Item Float)))
    (hw : Waits l pending) :
    ∃ s its, Runs v ts ⟨output, pending, .operand⟩ s ∧
      Settled l s pending (its.reverse ++ output) ∧ items its = x.postorder ∧
      Conserved v ts its := by
  match h with
  | .number a p | .imaginary a p =>
    exact ⟨_, [⟨_, p⟩], .cons rfl (.nil _), settled_emit _ _ _ _ _, rfl,
      .operand p (fun _ => rfl) rfl rfl⟩
  | .unknown p =>
    exact ⟨_, [⟨_, p⟩], .cons (step_variable _ rfl p) (.nil _), settled_emit _ _ _ _ _, rfl,
      .operand p (fun _ => by simp [item?]) rfl rfl⟩
  | .constant p hv hf hc =>
    exact ⟨_, [⟨_, p⟩], .cons (step_constant rfl hv hf hc p) (.nil _), settled_emit _ _ _ _ _, rfl,
      .operand p (fun _ => by simp [item?, hv, hf, hc]) rfl rfl⟩
  | .parentheses p q h =>
    obtain ⟨s, its, hr, hs, ho, hi⟩ :=
      runs_of_derives h (.opening p none 0 :: pending) output (waits_opening _ _ _ _ _)
    exact ⟨_, its, .cons rfl (hr.snoc hs.step_closing), ⟨rfl, fun _ _ => rfl⟩, ho,
      hi.parentheses p q⟩
  | @Derives.call _ _ _ _ f p q r hv hf h hf' =>
    obtain ⟨s, its, hr, hs, ho, hi⟩ := runs_of_derivesList h q ⟨_, p⟩ pending output
    have count := h.length_pos
    have conserved := hi.call hv hf h hf' p q r
    rw [← Nat.sub_add_cancel count] at hf'
    refine ⟨_, its ++ [⟨.call f, p⟩], .cons (step_function rfl hv hf p)
      (.cons rfl (hr.snoc (hs.step_closing_call hf'))), ⟨rfl, fun _ _ => ?_⟩, ?_, conserved⟩
    · rw [List.reverse_append]
      rfl
    · simp [Expr.postorder, ho]
  | .negate p h =>
    obtain ⟨s, its, hr, hs, ho, hi⟩ :=
      runs_of_derives h (.negation p :: pending) output (waits_unary _)
    exact ⟨s, its ++ [⟨.negate, p⟩], .cons rfl hr, by simpa using hs.negation,
      by simp [Expr.postorder, ho], hi.negate p⟩
  | .binary op p hl hr =>
    obtain ⟨s, its, hl, hs, ho, hi⟩ := runs_of_derives hl pending output hw.left
    obtain ⟨s', jts, hr, hs', ho', hi'⟩ := runs_of_derives hr (.operator op p :: pending)
      (its.reverse ++ output) (waits_right op p pending)
    refine ⟨s', its ++ jts ++ [⟨.binary op, p⟩], hl.append (.cons (hs.step_binary hw.left p) hr),
      by simpa using hs'.operator, ?_, hi.binary hi' op p⟩
    simp [Expr.postorder, ho', ho]
  | .loosen h =>
    obtain ⟨s, its, hr, hs, ho, hi⟩ := runs_of_derives h pending output hw.loosen
    exact ⟨s, its, hr, hs.loosen, ho, hi⟩

theorem runs_of_derivesList {ts : List (Located Token)} {xs : List (Expr Float)}
    (h : DerivesList v ts xs) (q : Nat) (g : Located String) (pending : List Pending)
    (output : List (Located (Item Float))) :
    ∃ s its, Runs v ts ⟨output, .opening q (some g) 0 :: pending, .operand⟩ s ∧
      Settled .expression s (.opening q (some g) (xs.length - 1) :: pending)
        (its.reverse ++ output) ∧
      items its = Expr.postorderOfList xs ∧ Conserved v ts its := by
  match h with
  | .single h =>
    obtain ⟨s, its, hr, hs, ho, hi⟩ :=
      runs_of_derives h (.opening q (some g) 0 :: pending) output (waits_opening _ _ _ _ _)
    exact ⟨s, its, hr, hs, by simp [ho], hi⟩
  | @DerivesList.more _ _ _ xs y p hxs hy =>
    obtain ⟨s, its, hr, hs, ho, hi⟩ := runs_of_derivesList hxs q g pending output
    have count := hxs.length_pos
    obtain ⟨s', jts, hr', hs', ho', hi'⟩ := runs_of_derives hy
      (.opening q (some g) (xs.length - 1 + 1) :: pending) (its.reverse ++ output)
      (waits_opening _ _ _ _ _)
    refine ⟨s', its ++ jts, hr.append (.cons hs.step_comma hr'), ?_, ?_, hi.arguments hi' p⟩
    · rw [Nat.sub_add_cancel count] at hs'
      simpa using hs'
    · simp [Expr.postorderOfList_append, ho', ho]

end

end Argand.Postfix
