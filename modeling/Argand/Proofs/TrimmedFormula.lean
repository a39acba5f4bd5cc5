import Argand.Proofs.BlankSeparation
import Argand.Proofs.ErrorPlaces
import Argand.Proofs.MovedPlaces
import Argand.Window.Plotter

namespace Argand

variable {f : Nat → Nat} {source other name : String} {e : ReadError}

/-- The number of blanks in front of a text. -/
def indent (source : String) : Nat := (source.toList.takeWhile isBlank).length

/-- The text without the blanks around it. -/
def trimmed (source : String) : String := String.ofList (trimBlank source.toList)

/-- The place in the trimmed text. Every place behind it becomes its end. -/
def trimmedPlace (source : String) (p : Nat) : Nat :=
  min (p - indent source) (trimmed source).length

theorem blank_of_mem_takeWhile {cs : List Char} {c : Char} (h : c ∈ cs.takeWhile isBlank) :
    isBlank c = true :=
  List.all_eq_true.mp List.all_takeWhile c h

/-- Only blanks are cut off. -/
theorem exists_trimmed (source : String) : ∃ gap, (∀ c ∈ gap, isBlank c = true) ∧
    source.toList = source.toList.takeWhile isBlank ++ ((trimmed source).toList ++ gap) := by
  refine ⟨((source.toList.dropWhile isBlank).reverse.takeWhile isBlank).reverse,
    fun c hc => blank_of_mem_takeWhile (List.mem_reverse.mp hc), ?_⟩
  rw [trimmed, String.toList_ofList, trimBlank, ← List.reverse_append,
    List.takeWhile_append_dropWhile, List.reverse_reverse, List.takeWhile_append_dropWhile]

theorem length_trimmed_le (source : String) :
    indent source + (trimmed source).length ≤ source.length := by
  obtain ⟨gap, -, split⟩ := exists_trimmed source
  have lengths := congrArg List.length split
  simp only [List.length_append, String.length_toList] at lengths
  rw [indent]
  omega

theorem trimmedPlace_zero (source : String) : trimmedPlace source 0 = 0 := by
  simp [trimmedPlace]

theorem trimmedPlace_length (source : String) :
    trimmedPlace source source.length = (trimmed source).length := by
  have := length_trimmed_le source
  rw [trimmedPlace]
  omega

theorem trimmedPlace_shift {p : Nat} (h : p < (trimmed source).length) :
    trimmedPlace source (p + indent source) = p := by
  rw [trimmedPlace]
  omega

namespace Token

/-- Every place of the scanner moved. -/
def movedScan (f : Nat → Nat) (r : Except ReadError (List (Located Token))) :
    Except ReadError (List (Located Token)) :=
  (r.mapError (ReadError.move f)).map (List.map (Located.move f))

theorem scan_append_gap {gap : List Char} (blank : ∀ c ∈ gap, isBlank c = true) (cs : List Char) :
    scan (cs ++ gap) = scan cs := by
  cases gap with
  | nil => rw [List.append_nil]
  | cons b more =>
    have first := (List.forall_mem_cons.mp blank).1
    have rest (p : Nat) (ts : List (Located Token)) :
        scanFrom p ts.reverse (b :: more) = .ok ts := by
      rw [← List.append_nil (b :: more), scanFrom_blanks blank, scanFrom_nil, List.reverse_reverse]
    rw [scan, scanFrom_append_blank first, scan]
    simp only [rest]
    cases scanFrom 0 [] cs <;> rfl

/-- The blanks in front put all tokens so many places further on. -/
theorem scan_trimmed (source : String) :
    scan source.toList = movedScan (· + indent source) (scan (trimmed source).toList) := by
  obtain ⟨gap, blank, split⟩ := exists_trimmed source
  have front : ∀ c ∈ source.toList.takeWhile isBlank, isBlank c = true :=
    fun c hc => blank_of_mem_takeWhile hc
  rw [split, scan, scanFrom_blanks front, scanFrom_eq_scan, scan_append_gap blank, Nat.zero_add]
  rfl

theorem movedScan_congr {g : Nat → Nat} {cs : List Char}
    (h : ∀ p result, LexesAt cs p result → f p = g p) :
    movedScan f (scan cs) = movedScan g (scan cs) := by
  cases scanned : scan cs with
  | error e =>
    have same := h _ _ (lexesAt_of_scan_error scanned)
    exact congrArg (fun p => Except.error (ReadError.mk p e.cause)) same
  | ok ts =>
    refine congrArg Except.ok (List.map_congr_left fun t ht => ?_)
    obtain ⟨extra, met⟩ := lexesAt_of_scan scanned ht
    rw [Located.move, h _ _ met, Located.move]

theorem movedScan_id (r : Except ReadError (List (Located Token))) : movedScan id r = r := by
  cases r with
  | error e => rfl
  | ok ts => exact congrArg Except.ok (List.map_id ts)

theorem movedScan_comp (f g : Nat → Nat) (r : Except ReadError (List (Located Token))) :
    movedScan f (movedScan g r) = movedScan (f ∘ g) r := by
  cases r with
  | error e => rfl
  | ok ts => exact congrArg Except.ok List.map_map

theorem scan_trimmed_eq (source : String) :
    scan (trimmed source).toList = movedScan (trimmedPlace source) (scan source.toList) := by
  rw [scan_trimmed source, movedScan_comp]
  refine (movedScan_id _).symm.trans (movedScan_congr fun p result met => ?_)
  have within := met.position_lt
  rw [String.length_toList] at within
  exact (trimmedPlace_shift within).symm

/-- No token and no refused character lies outside the trimmed text. -/
theorem scan_eq_movedScan
    (h : ∀ p < (trimmed source).length, f (p + indent source) = p + indent source) :
    scan source.toList = movedScan f (scan source.toList) := by
  rw [scan_trimmed source, movedScan_comp]
  refine movedScan_congr fun p result met => ?_
  have within := met.position_lt
  rw [String.length_toList] at within
  exact (h p within).symm

end Token

namespace Formula

open Token (movedScan scan)

def Stages.move (f : Nat → Nat) (s : Stages) : Stages :=
  ⟨s.tokens.map (Located.move f), s.items.map (Located.move f), s.tree⟩

/-- An explanation shows no places. -/
theorem explanation_move (s : Stages) : (s.move f).explanation = s.explanation := by
  simp only [Stages.explanation, Stages.move, List.map_map]
  rfl

/-- A text with the same tokens at other places is read alike, with all places moved. -/
theorem stages_move (scanned : scan other.toList = movedScan f (scan source.toList))
    (ends : f source.length = other.length) (empty : scan source.toList = .ok [] → f 0 = 0) :
    stages other name = ((stages source name).mapError (ReadError.move f)).map (Stages.move f) := by
  unfold stages
  rw [scanned]
  cases hs : scan source.toList with
  | error e => rfl
  | ok ts =>
    show (Postfix.read (ts.map (Located.move f)) _ other.length >>= _) = _
    by_cases none : ts = []
    · subst none
      have same : (⟨0, .emptyInput⟩ : ReadError) = ReadError.move f ⟨0, .emptyInput⟩ := by
        rw [ReadError.move, empty hs]
      exact congrArg Except.error same
    · rw [← ends, Postfix.read_move none]
      simp only [bind, Except.bind]
      cases hr : Postfix.read ts (String.ofList (name.toList.map lowerChar)) source.length with
      | error e => rfl
      | ok items =>
        have limits (e : ReadError) (hb : Expr.ofPostfix items = .error e) :
            e.cause = .tooLong Expr.maxSize ∨ e.cause = .tooDeep Expr.maxDepth := by
          obtain ⟨-, -, -, cause⟩ := limit_of_ofPostfix_error hs hr hb
          exact cause
        show (Expr.ofPostfix (items.map (Located.move f)) >>= _) =
          ((Expr.ofPostfix items >>= fun x => .ok ⟨ts, items, x⟩).mapError (ReadError.move f)).map
            (Stages.move f)
        rw [Expr.ofPostfix_move limits]
        cases Expr.ofPostfix items <;> rfl

theorem stages_trimmed (source name : String) : stages (trimmed source) name =
    ((stages source name).mapError (ReadError.move (trimmedPlace source))).map
      (Stages.move (trimmedPlace source)) :=
  stages_move (Token.scan_trimmed_eq source) (trimmedPlace_length source)
    fun _ => trimmedPlace_zero source

/-- The trimmed text is read as the whole one, and refused for the same cause. -/
theorem compile_trimmed (source : String) : compile (trimmed source) =
    (compile source).mapError (ReadError.move (trimmedPlace source)) := by
  rw [compile, stages_trimmed, compile]
  cases stages source variableName with
  | error e => rfl
  | ok s => exact congrArg (fun text => Except.ok (s.tree, text)) (explanation_move s)

theorem parse_trimmed (source name : String) : parse (trimmed source) name =
    (parse source name).mapError (ReadError.move (trimmedPlace source)) := by
  rw [parse, stages_trimmed, parse]
  cases stages source name <;> rfl

/-- Every place among the blanks around the text becomes its end. -/
def placeOffBlanks (source : String) (p : Nat) : Nat :=
  if indent source ≤ p ∧ p < indent source + (trimmed source).length then p else source.length

/-- A fault is not found among the blanks, unless there is nothing else. -/
theorem place_of_parse_error (h : parse source name = .error e) :
    e.cause = .emptyInput ∨ e.position = source.length ∨
      indent source ≤ e.position ∧ e.position < indent source + (trimmed source).length := by
  by_cases none : scan source.toList = .ok []
  · have refused : Postfix.read [] (String.ofList (name.toList.map lowerChar)) source.length =
        .error ⟨0, .emptyInput⟩ := rfl
    cases (parse_of_read_error none refused).symm.trans h
    exact Or.inl rfl
  -- Moving the places of blanks to the end moves no token, hence not the error either.
  · have kept : scan source.toList = movedScan (placeOffBlanks source) (scan source.toList) :=
      Token.scan_eq_movedScan fun p hp => if_pos (by omega)
    have ends : placeOffBlanks source source.length = source.length := ite_self _
    have same : stages source name = _ := stages_move kept ends fun empty => absurd empty none
    cases read : stages source name with
    | error e' =>
      rw [parse, read] at h
      cases h
      rw [read] at same
      have moved : e = e.move (placeOffBlanks source) := Except.error.inj same
      have place : e.position = placeOffBlanks source e.position :=
        congrArg ReadError.position moved
      rw [placeOffBlanks] at place
      split at place
      next within => exact Or.inr (Or.inr within)
      next => exact Or.inr (Or.inl place)
    | ok s =>
      rw [parse, read] at h
      cases h

end Formula

theorem ReadError.message_eq_iff {cause : Cause} {p q : Nat} :
    message ⟨p, cause⟩ = message ⟨q, cause⟩ ↔ p = q := by
  simp [message, String.append_assoc, Nat.repr_inj]

namespace Plotter

open Formula (compile parse)

variable {p : Plotter}

theorem applyFormula_of_compile {x : Expr Float} {explanation : Explanation}
    (h : compile p.entry = .ok (x, explanation)) : p.applyFormula = p.accept x explanation := by
  have inner : compile (trimmed p.entry) = .ok (x, explanation) := by
    rw [Formula.compile_trimmed, h]
    rfl
  rw [applyFormula, show compile (String.ofList (trimBlank p.entry.toList)) = _ from inner]

theorem applyFormula_of_parse_error (h : parse p.entry variableName = .error e) :
    p.applyFormula = p.reject (e.move (trimmedPlace p.entry)).message := by
  have inner : compile (trimmed p.entry) = .error (e.move (trimmedPlace p.entry)) := by
    have refused : compile p.entry = .error e := by
      rw [parse] at h
      rw [compile]
      cases read : Formula.stages p.entry variableName <;> rw [read] at h <;> cases h
      rfl
    rw [Formula.compile_trimmed, refused]
    rfl
  rw [applyFormula, show compile (String.ofList (trimBlank p.entry.toList)) = _ from inner]

/-- The formula is read without the blanks around it. That changes neither the tree nor the cause of
a fault, but the place that is shown counts from the first character that is not blank, and is the
end of the trimmed text for a fault at the end. So the message is that of the text in the field if
and only if there is no blank in front, and none behind a formula that ends too early; a text of
blanks alone apart. -/
theorem applyFormula_places (p : Plotter) :
    (∀ x explanation, compile p.entry = .ok (x, explanation) →
      p.applyFormula = p.accept x explanation) ∧
    ∀ e, parse p.entry variableName = .error e →
      p.applyFormula = p.reject (e.move (trimmedPlace p.entry)).message ∧
      (e.move (trimmedPlace p.entry)).PointsInto (trimmed p.entry) ∧
      (e.cause = .emptyInput ∨ e.position = p.entry.length ∨
        e.position = trimmedPlace p.entry e.position + indent p.entry) ∧
      (p.applyFormula.error = e.message ↔
        e.cause = .emptyInput ∨ indent p.entry = 0 ∧ e.position ≤ (trimmed p.entry).length) := by
  refine ⟨fun x explanation h => applyFormula_of_compile h, fun e h => ?_⟩
  have shown := applyFormula_of_parse_error h
  have bound := length_trimmed_le p.entry
  have place := Formula.place_of_parse_error h
  have inner : parse (trimmed p.entry) variableName = .error (e.move (trimmedPlace p.entry)) := by
    rw [Formula.parse_trimmed, h]
    rfl
  refine ⟨shown, Formula.pointsInto_of_parse_error inner, ?_, ?_⟩
  · refine place.imp_right (Or.imp_right fun within => ?_)
    rw [trimmedPlace]
    omega
  · rw [shown]
    show (e.move (trimmedPlace p.entry)).message = e.message ↔ _
    rw [ReadError.move, ReadError.message_eq_iff, trimmedPlace]
    constructor
    · intro same
      refine place.imp_right fun visible => ?_
      omega
    · rintro (empty | ⟨first, within⟩)
      · have start : e.position = 0 := by
          cases Formula.pointsInto_of_parse_error h <;> simp_all [ReadError.Cause.Concerns]
        rw [start, Nat.zero_sub, Nat.zero_min]
      · omega

/-- The sign is the fifth character of the one field and the message says the third; the other field
ends one character later than the message says. A formula that can be read may stand anywhere. -/
theorem applyFormula_places_indented :
    (∃ r, compile "\n z" = .ok r ∧
      { initial with entry := "\n z" }.applyFormula =
        { initial with entry := "\n z" }.accept r.1 r.2) ∧
    parse "  z $" variableName = .error ⟨4, .unexpectedCharacter '$'⟩ ∧
    { initial with entry := "  z $" }.applyFormula.error =
      "caractère inattendu: '$' (position 2)" ∧
    parse "z + " variableName = .error ⟨4, .missingOperand⟩ ∧
    { initial with entry := "z + " }.applyFormula.error = "opérande manquant (position 3)" := by
  have accepted : ∃ r, compile "\n z" = .ok r := by
    have scanned : Token.scan "\n z".toList = .ok [⟨.name "z", 2⟩] := by decide +kernel
    have items : Postfix.read [⟨.name "z", 2⟩] (String.ofList (variableName.toList.map lowerChar))
        "\n z".length = .ok [⟨.unknown, 2⟩] := by decide +kernel
    have stages := (Formula.stages_eq_ok_iff (s := ⟨_, _, .unknown⟩)).mpr ⟨scanned, items, rfl⟩
    rw [compile, stages]
    exact ⟨_, rfl⟩
  have refused : parse "  z $" variableName = .error ⟨4, .unexpectedCharacter '$'⟩ :=
    Formula.parse_of_scan_error (by decide +kernel)
  have ended : parse "z + " variableName = .error ⟨4, .missingOperand⟩ :=
    have scanned : Token.scan "z + ".toList = .ok [⟨.name "z", 0⟩, ⟨.plus, 2⟩] := by
      decide +kernel
    Formula.parse_of_read_error scanned (by decide +kernel)
  have third : trimmedPlace "  z $" 4 = 2 := by decide +kernel
  have last : trimmedPlace "z + " 4 = 3 := by decide +kernel
  refine ⟨?_, refused, ?_, ended, ?_⟩
  · obtain ⟨r, read⟩ := accepted
    exact ⟨r, read, (applyFormula_places { initial with entry := "\n z" }).1 r.1 r.2 read⟩
  · rw [((applyFormula_places { initial with entry := "  z $" }).2 _ refused).1, ReadError.move,
      third]
    rfl
  · rw [((applyFormula_places { initial with entry := "z + " }).2 _ ended).1, ReadError.move, last]
    rfl

end Plotter
end Argand
