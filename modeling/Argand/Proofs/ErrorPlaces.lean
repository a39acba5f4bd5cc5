import Argand.Proofs.Printable
import Argand.Proofs.TokenPlaces
import Argand.Proofs.TreeLimits

namespace Argand

/-- The token that an error with this cause is about. -/
def ReadError.Cause.Concerns : ReadError.Cause → Token → Prop
  | unexpectedToken u, t => t = u
  | unknownName n, t | callWithoutParenthesis n, t => t = .name n
  | wrongArity n _ _, t => t = .name n ∧ Builtin.isName n = true
  | unclosedParenthesis, t => t = .leftParen
  | unopenedParenthesis, t => t = .rightParen
  | commaOutsideCall, t => t = .comma
  | missingOperand, _ | tooDeep _, _ | tooLong _, _ => True
  | emptyInput, _ | unexpectedCharacter _, _ | invalidNumber _, _ => False

/-- What the place of an error shows. -/
inductive ReadError.PointsInto (source : String) : ReadError → Prop
  | blank (h : ∀ c ∈ source.toList, isBlank c = true) : PointsInto source ⟨0, .emptyInput⟩
  | atEnd : PointsInto source ⟨source.length, .missingOperand⟩
  | character {p : Nat} {c : Char} (h : source.toList[p]? = some c) :
      PointsInto source ⟨p, .unexpectedCharacter c⟩
  | number {p : Nat} {text : String} (hp : p < source.length)
      (h : text.toList <+: source.toList.drop p) : PointsInto source ⟨p, .invalidNumber text⟩
  | token {ts : List (Located Token)} {t : Located Token} {cause : Cause}
      (hs : Token.scan source.toList = .ok ts) (ht : t ∈ ts) (hp : t.position < source.length)
      (h : cause.Concerns t.value) : PointsInto source ⟨t.position, cause⟩

namespace Postfix

variable {ts : List (Located Token)} {s : State} {t : Located Token} {v : String}
  {pending : List Pending} {output : List (Located (Item Float))}

def IsPlace (ts : List (Located Token)) (p : Nat) : Prop := ∃ t ∈ ts, t.position = p

def NamesFunction (ts : List (Located Token)) (f : Located String) : Prop :=
  ⟨.name f.value, f.position⟩ ∈ ts ∧ Builtin.isName f.value = true

def Pending.Traced (ts : List (Located Token)) : Pending → Prop
  | operator _ p | negation p => IsPlace ts p
  | opening p call _ => ⟨.leftParen, p⟩ ∈ ts ∧ ∀ f ∈ call, NamesFunction ts f

/-- Whatever the state remembers has the place of the token it comes from. -/
structure State.Traced (ts : List (Located Token)) (s : State) : Prop where
  output : ∀ i ∈ s.output, IsPlace ts i.position
  pending : ∀ p ∈ s.pending, p.Traced ts
  expects : ∀ f, s.expects = .parenthesis f → NamesFunction ts f

def ErrorTraced (ts : List (Located Token)) (e : ReadError) : Prop :=
  ∃ t ∈ ts, t.position = e.position ∧ e.cause.Concerns t.value

/-- A traced state, or an error with the place of a token. -/
def ResultTraced (ts : List (Located Token)) : Except ReadError State → Prop
  | .ok s => s.Traced ts
  | .error e => ErrorTraced ts e

/-- Items with the places of tokens, or an error with such a place or at an end of the text. -/
def OutputTraced (ts : List (Located Token)) (length : Nat) :
    Except ReadError (List (Located (Item Float))) → Prop
  | .ok items => ∀ i ∈ items, IsPlace ts i.position
  | .error e =>
    ts = [] ∧ e = ⟨0, .emptyInput⟩ ∨ e = ⟨length, .missingOperand⟩ ∨ ErrorTraced ts e

variable {leaves : Nat → Bool} {length : Nat}

theorem traced_start (ts : List (Located Token)) : State.start.Traced ts := by
  refine ⟨?_, ?_, ?_⟩ <;> exact nofun

theorem State.Traced.emit (h : s.Traced ts) (ht : t ∈ ts) (item : Item Float) :
    (s.emit item t.position).Traced ts where
  output := List.forall_mem_cons.mpr ⟨⟨t, ht, rfl⟩, h.output⟩
  pending := h.pending
  expects := nofun

theorem State.Traced.push (h : s.Traced ts) {p : Pending} (hp : p.Traced ts) :
    (s.push p).Traced ts where
  output := h.output
  pending := List.forall_mem_cons.mpr ⟨hp, h.pending⟩
  expects := nofun

/-- What leaves for the output takes its place along. -/
theorem release_traced (hp : ∀ p ∈ pending, p.Traced ts)
    (ho : ∀ i ∈ output, IsPlace ts i.position) {pending' : List Pending}
    {output' : List (Located (Item Float))}
    (h : release leaves pending output = (pending', output')) :
    (∀ p ∈ pending', p.Traced ts) ∧ ∀ i ∈ output', IsPlace ts i.position := by
  fun_induction release leaves pending output with
  | case1 op position rest output leaf ih | case3 position rest output leaf ih =>
    obtain ⟨top, below⟩ := List.forall_mem_cons.mp hp
    exact ih below (List.forall_mem_cons.mpr ⟨top, ho⟩) h
  | case2 | case4 | case5 =>
    cases h
    exact ⟨hp, ho⟩

theorem resolve_concerns {n : String} {count : Nat} {cause : ReadError.Cause}
    (hn : Builtin.isName n = true) (h : Builtin.resolve n count = .error cause) :
    cause.Concerns (.name n) := by
  unfold Builtin.resolve at h
  split at h
  next => cases h; rfl
  next =>
    split at h
    next => cases h
    next => cases h; exact ⟨rfl, hn⟩

theorem NamesFunction.error {f : Located String} {cause : ReadError.Cause}
    (h : NamesFunction ts f) (hc : cause.Concerns (.name f.value)) :
    ErrorTraced ts ⟨f.position, cause⟩ :=
  ⟨_, h.1, rfl, hc⟩

theorem State.Traced.readOperand (h : s.Traced ts) (ht : t ∈ ts) :
    ResultTraced ts (readOperand v s t) := by
  have missing : ErrorTraced ts ⟨t.position, .missingOperand⟩ := ⟨t, ht, rfl, trivial⟩
  unfold Postfix.readOperand
  split
  next => exact h.emit ht _
  next => exact h.emit ht _
  next n value =>
    split
    next => exact h.emit ht _
    next =>
      split
      next isFunction =>
        refine ⟨h.output, h.pending, fun f hf => ?_⟩
        cases hf
        refine ⟨?_, isFunction⟩
        rw [← value]
        exact ht
      next =>
        split
        next => exact h.emit ht _
        next => exact ⟨t, ht, rfl, value⟩
  next value =>
    refine h.push ⟨?_, nofun⟩
    rw [← value]
    exact ht
  next => exact h.push ⟨t, ht, rfl⟩
  next =>
    split
    next q f rest top =>
      have opened : (Pending.opening q (some f) 0).Traced ts :=
        h.pending _ (top ▸ List.mem_cons_self)
      have function : NamesFunction ts f := opened.2 f rfl
      split
      next cause refused => exact function.error (resolve_concerns function.2 refused)
      next => exact function.error trivial
    next => exact missing
  all_goals exact missing

theorem State.Traced.readBinary (h : s.Traced ts) (op : Operator) (ht : t ∈ ts) :
    ResultTraced ts (readBinary s op t.position) := by
  have released : release (goesBefore op) s.pending s.output = (_, _) := rfl
  obtain ⟨pending, output⟩ := release_traced h.pending h.output released
  exact ⟨output, List.forall_mem_cons.mpr ⟨⟨t, ht, rfl⟩, pending⟩, nofun⟩

theorem State.Traced.readClosing (h : s.Traced ts) (ht : t ∈ ts) (hv : t.value = .rightParen) :
    ResultTraced ts (readClosing s t.position) := by
  unfold Postfix.readClosing
  split
  next released =>
    obtain ⟨pending, output⟩ := release_traced h.pending h.output released
    exact ⟨output, (List.forall_mem_cons.mp pending).2, nofun⟩
  next q f commas rest out released =>
    obtain ⟨pending, output⟩ := release_traced h.pending h.output released
    obtain ⟨top, below⟩ := List.forall_mem_cons.mp pending
    have function : NamesFunction ts f := top.2 f rfl
    split
    next cause refused => exact function.error (resolve_concerns function.2 refused)
    next => exact ⟨List.forall_mem_cons.mpr ⟨⟨_, function.1, rfl⟩, output⟩, below, nofun⟩
  next => exact ⟨t, ht, rfl, hv⟩

theorem State.Traced.readComma (h : s.Traced ts) (ht : t ∈ ts) (hv : t.value = .comma) :
    ResultTraced ts (readComma s t.position) := by
  unfold Postfix.readComma
  split
  next q f commas rest out released =>
    obtain ⟨pending, output⟩ := release_traced h.pending h.output released
    obtain ⟨top, below⟩ := List.forall_mem_cons.mp pending
    exact ⟨output, List.forall_mem_cons.mpr ⟨top, below⟩, nofun⟩
  next => exact ⟨t, ht, rfl, hv⟩

theorem State.Traced.readOperator (h : s.Traced ts) (ht : t ∈ ts) :
    ResultTraced ts (readOperator s t) := by
  unfold Postfix.readOperator
  split
  case h_6 value => exact h.readClosing ht value
  case h_7 value => exact h.readComma ht value
  case h_8 | h_9 | h_10 | h_11 => exact ⟨t, ht, rfl, rfl⟩
  all_goals exact h.readBinary _ ht

theorem State.Traced.step (h : s.Traced ts) (ht : t ∈ ts) : ResultTraced ts (step v s t) := by
  unfold Postfix.step
  split
  next => exact h.readOperand ht
  next => exact h.readOperator ht
  next f expects =>
    have function := h.expects f expects
    split
    next value =>
      refine h.push ⟨?_, fun g hg => ?_⟩
      · rw [← value]
        exact ht
      · cases hg
        exact function
    next => exact function.error rfl

theorem State.Traced.foldlM (h : s.Traced ts) {us : List (Located Token)} (hu : us ⊆ ts) :
    ResultTraced ts (us.foldlM (Postfix.step v) s) := by
  induction us generalizing s with
  | nil => exact h
  | cons t us ih =>
    obtain ⟨ht, hu⟩ := List.cons_subset.mp hu
    have result := h.step (v := v) ht
    rw [List.foldlM_cons]
    cases next : Postfix.step v s t with
    | error e =>
      rw [next] at result
      exact result
    | ok s' =>
      rw [next] at result
      exact ih result hu

theorem State.Traced.finish (h : s.Traced ts) : OutputTraced ts length (finish s length) := by
  unfold Postfix.finish
  split
  next => exact Or.inr (Or.inl rfl)
  next f expects => exact Or.inr (Or.inr ((h.expects f expects).error rfl))
  next =>
    split
    next p call commas rest out released =>
      have top := (release_traced h.pending h.output released).1 _ List.mem_cons_self
      exact Or.inr (Or.inr ⟨_, top.1, rfl, rfl⟩)
    next out _ released =>
      have output := (release_traced h.pending h.output released).2
      exact fun i hi => output i (List.mem_reverse.mp hi)

theorem read_traced (ts : List (Located Token)) (v : String) (length : Nat) :
    OutputTraced ts length (read ts v length) := by
  unfold read
  split
  next empty => exact Or.inl ⟨List.isEmpty_iff.mp empty, rfl⟩
  next =>
    have result := (traced_start ts).foldlM (v := v) (List.Subset.refl ts)
    cases run : ts.foldlM (Postfix.step v) State.start with
    | error e =>
      rw [run] at result
      exact Or.inr (Or.inr result)
    | ok s =>
      rw [run] at result
      exact State.Traced.finish result

end Postfix

namespace Token

variable {source : String} {e : ReadError}

theorem pointsInto_of_scan_error (h : scan source.toList = .error e) : e.PointsInto source := by
  obtain ⟨p, cause⟩ := e
  have met := lexesAt_of_scan_error h
  have lt := met.position_lt
  rw [String.length_toList] at lt
  obtain ⟨c, rest, hd, -, refused⟩ := met
  rcases lex_error refused with rfl | ⟨text, rfl, front⟩
  · refine .character ?_
    rw [← List.head?_drop, hd]
    rfl
  · refine .number lt ?_
    rw [hd]
    exact front

theorem position_lt_of_scan {ts : List (Located Token)} (h : scan source.toList = .ok ts)
    {t : Located Token} (ht : t ∈ ts) : t.position < source.length := by
  obtain ⟨extra, met⟩ := lexesAt_of_scan h ht
  rw [← String.length_toList]
  exact met.position_lt

end Token

namespace Formula

open Postfix (read ErrorTraced IsPlace)

variable {source name v : String} {e : ReadError} {ts : List (Located Token)}
  {items : List (Located (Postfix.Item Float))}

theorem parse_of_scan_error (hs : Token.scan source.toList = .error e) :
    parse source name = .error e := by
  rw [parse, stages, hs]
  rfl

theorem parse_of_read_error (hs : Token.scan source.toList = .ok ts)
    (hr : read ts (String.ofList (name.toList.map lowerChar)) source.length = .error e) :
    parse source name = .error e := by
  rw [parse, stages, hs]
  simp only [bind, Except.bind, hr]
  rfl

theorem parse_of_read (hs : Token.scan source.toList = .ok ts)
    (hr : read ts (String.ofList (name.toList.map lowerChar)) source.length = .ok items) :
    parse source name = Expr.ofPostfix items := by
  rw [parse, stages, hs]
  simp only [bind, Except.bind, hr]
  cases Expr.ofPostfix items <;> rfl

/-- Of items that were read from a text, a tree is only refused for its size. -/
theorem limit_of_ofPostfix_error (hs : Token.scan source.toList = .ok ts)
    (hr : read ts v source.length = .ok items) (hb : Expr.ofPostfix items = .error e) :
    ∃ i ∈ items, e.position = i.position ∧
      (e.cause = .tooLong Expr.maxSize ∨ e.cause = .tooDeep Expr.maxDepth) := by
  obtain ⟨x, hx, listing⟩ := Postfix.exists_derives_of_read hr
  have plain := Token.plain_scanFrom _ _ _ _ (by simp) hs
  have saturated := (hx.expressible plain).2
  by_cases exceeds : Expr.maxDepth < x.depth ∨ Expr.maxSize < x.size
  · obtain ⟨i, item, found, -, -, refused⟩ := Expr.ofPostfix_of_over listing saturated exceeds
    cases refused.symm.trans hb
    refine ⟨item, List.mem_of_getElem? found, rfl, ?_⟩
    dsimp only
    split
    · exact Or.inl rfl
    · exact Or.inr rfl
  · obtain ⟨deep, long⟩ := not_or.mp exceeds
    rw [← Expr.length_postorder, ← listing, List.length_map] at long
    have built := Expr.ofPostfix_eq_ok.mpr
      ⟨listing, saturated, Nat.not_lt.mp deep, Nat.not_lt.mp long⟩
    cases built.symm.trans hb

theorem pointsInto_of_traced (hs : Token.scan source.toList = .ok ts) (h : ErrorTraced ts e) :
    e.PointsInto source := by
  obtain ⟨p, cause⟩ := e
  obtain ⟨t, ht, rfl, concerns⟩ := h
  exact .token hs ht (Token.position_lt_of_scan hs ht) concerns

theorem pointsInto_of_parse_error (h : parse source name = .error e) : e.PointsInto source := by
  cases hs : Token.scan source.toList with
  | error e' =>
    cases (parse_of_scan_error hs).symm.trans h
    exact Token.pointsInto_of_scan_error hs
  | ok ts =>
    have traced := Postfix.read_traced ts (String.ofList (name.toList.map lowerChar)) source.length
    cases hr : read ts (String.ofList (name.toList.map lowerChar)) source.length with
    | error e' =>
      rw [hr] at traced
      cases (parse_of_read_error hs hr).symm.trans h
      rcases traced with ⟨rfl, rfl⟩ | rfl | traced
      · exact .blank (Token.blank_of_scanFrom hs)
      · exact .atEnd
      · exact pointsInto_of_traced hs traced
    | ok items =>
      rw [hr] at traced
      rw [parse_of_read hs hr] at h
      obtain ⟨i, hi, place, limit⟩ := limit_of_ofPostfix_error hs hr h
      obtain ⟨t, ht, same⟩ := traced i hi
      refine pointsInto_of_traced hs ⟨t, ht, same.trans place.symm, ?_⟩
      rcases limit with long | deep
      · rw [long]
        trivial
      · rw [deep]
        trivial

/-- Every error of reading a formula points into its text, and to what its message is about. Once
the items are in postfix order, only the limits on the tree are left to be broken. -/
theorem parse_error_pointsInto (h : parse source name = .error e) :
    e.PointsInto source ∧ ∀ ts items, Token.scan source.toList = .ok ts →
      read ts (String.ofList (name.toList.map lowerChar)) source.length = .ok items →
      ∃ i ∈ items, e.position = i.position ∧
        (e.cause = .tooLong Expr.maxSize ∨ e.cause = .tooDeep Expr.maxDepth) := by
  refine ⟨pointsInto_of_parse_error h, fun ts items hs hr => ?_⟩
  rw [parse_of_read hs hr] at h
  exact limit_of_ofPostfix_error hs hr h

set_option maxRecDepth 10000 in
/-- The fault is found at the parenthesis that closes the call, but its place is that of the name. -/
theorem parse_error_pointsInto_call :
    parse "(z - log(z, z, z)" "z" = .error ⟨5, .wrongArity "log" 1 3⟩ ∧
      ReadError.PointsInto "(z - log(z, z, z)" ⟨5, .wrongArity "log" 1 3⟩ := by
  have refused : parse "(z - log(z, z, z)" "z" = .error ⟨5, .wrongArity "log" 1 3⟩ := by cbv
  exact ⟨refused, (parse_error_pointsInto refused).1⟩

end Formula
end Argand
