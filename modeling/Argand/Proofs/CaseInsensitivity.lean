import Argand.Proofs.ErrorPlaces
import Argand.Proofs.Lexemes

namespace Argand

/-- The text with its letters in lower case. -/
def lowered (cs : List Char) : List Char := cs.map Char.toLower

theorem lowered_of_digits {ds : List Char} (h : ∀ c ∈ ds, c.isDigit = true) : lowered ds = ds := by
  refine (List.map_congr_left fun c hc => ?_).trans (List.map_id ds)
  have noWord := Token.not_beginsWord_of_digit (h c hc)
  exact toLower_of_not_letter (Bool.or_eq_false_iff.mp noWord).1

theorem drop_lowered (n : Nat) (cs : List Char) : (lowered cs).drop n = lowered (cs.drop n) :=
  List.map_drop.symm

theorem takeWhile_lowered {q : Char → Bool} (hq : ∀ c, q c.toLower = q c) (cs : List Char) :
    (lowered cs).takeWhile q = lowered (cs.takeWhile q) := by
  have same : q ∘ Char.toLower = q := funext hq
  rw [lowered, List.takeWhile_map, same, lowered]

theorem takeWhile_digits_lowered (cs : List Char) :
    (lowered cs).takeWhile Char.isDigit = cs.takeWhile Char.isDigit := by
  rw [takeWhile_lowered isDigit_toLower]
  exact lowered_of_digits fun c hc => List.mem_takeWhile_imp hc

theorem any_head_lowered {q : Char → Bool} (hq : ∀ c, q c.toLower = q c) (cs : List Char) :
    (lowered cs).head?.any q = cs.head?.any q := by
  cases cs with
  | nil => rfl
  | cons c => exact hq c

/-- A sign at the front is no letter, and stays as it is. -/
theorem filter_head_lowered {q : Char → Bool} (hq : ∀ c, c.isAlpha = true → q c = false)
    (cs : List Char) : (lowered cs).head?.filter q = cs.head?.filter q := by
  cases cs with
  | nil => rfl
  | cons c cs =>
    show (some c.toLower).filter q = (some c).filter q
    by_cases letter : c.isAlpha = true
    · have same := apply_toLower hq c
      rw [Option.filter_some, Option.filter_some, same, hq c letter]
      rfl
    · rw [toLower_of_not_letter (Bool.eq_false_iff.mpr letter)]

theorem head_lowered_eq_iff {d : Char} (hd : d.isAlpha = false) (cs : List Char) :
    (lowered cs).head? = some d ↔ cs.head? = some d := by
  cases cs with
  | nil => rfl
  | cons c =>
    have same := beq_toLower hd c
    rw [Bool.eq_iff_iff, beq_iff_eq, beq_iff_eq] at same
    simpa [lowered] using same

/-- The exponent with its mark in lower case. -/
def Exponent.lower (e : Exponent) : Exponent := ⟨e.marker.toLower, e.sign, e.digits⟩

theorem Exponent.read?_lowered (cs : List Char) : read? (lowered cs) = (read? cs).map lower := by
  cases cs with
  | nil => rfl
  | cons marker rest =>
    have marked : (marker.toLower = 'e' || marker.toLower = 'E') =
        (marker = 'e' || marker = 'E') := by
      rw [Bool.eq_iff_iff]
      simp only [Bool.or_eq_true, decide_eq_true_eq]
      exact eitherCase_toLower (l := 'e') rfl marker
    have noLetter (c : Char) (letter : c.isAlpha = true) : (c = '+' || c = '-') = false := by
      have plus : c ≠ '+' := by
        rintro rfl
        cases letter
      have minus : c ≠ '-' := by
        rintro rfl
        cases letter
      simp [plus, minus]
    have sign := filter_head_lowered noLetter rest
    show read? (marker.toLower :: lowered rest) = _
    simp only [read?, marked, sign, drop_lowered, takeWhile_digits_lowered]
    split
    next =>
      split
      next => rfl
      next => rfl
    next => rfl

namespace Numeral

def lower (n : Numeral) : Numeral := ⟨n.whole, n.fraction, n.exponent.map Exponent.lower⟩

theorem read_lowered (cs : List Char) : read (lowered cs) = (read cs).lower := by
  unfold read
  simp only [takeWhile_digits_lowered, drop_lowered]
  generalize cs.drop (cs.takeWhile Char.isDigit).length = rest
  have point := head_lowered_eq_iff (d := '.') rfl rest
  have tail : (lowered rest).tail = lowered rest.tail := List.map_tail.symm
  simp only [point, tail, takeWhile_digits_lowered]
  split <;> simp only [drop_lowered, Exponent.read?_lowered, lower]

theorem toDecimal_lower (n : Numeral) : n.lower.toDecimal = n.toDecimal := by
  obtain ⟨whole, fraction, exponent⟩ := n
  cases exponent <;> rfl

theorem length_toChars_lower (n : Numeral) : n.lower.toChars.length = n.toChars.length := by
  obtain ⟨whole, fraction, exponent⟩ := n
  cases exponent with
  | none => rfl
  | some e => simp [toChars, lower, Exponent.toChars, Exponent.lower]

/-- A numeral takes as many characters in either case, and hence the same ones. -/
theorem toChars_read_lowered (cs : List Char) :
    (read (lowered cs)).toChars = lowered (read cs).toChars := by
  have length : (read (lowered cs)).toChars.length = (read cs).toChars.length := by
    rw [read_lowered, length_toChars_lower]
  have front : (read (lowered cs)).toChars <+: lowered cs := toChars_read_prefix _
  have front' : (read cs).toChars <+: cs := toChars_read_prefix _
  rw [List.prefix_iff_eq_take.mp front, length, lowered, ← List.map_take,
    ← List.prefix_iff_eq_take.mp front', lowered]

theorem startsAt_lowered (c : Char) (rest : List Char) :
    startsAt c.toLower (lowered rest) = startsAt c rest := by
  rw [startsAt, startsAt, isDigit_toLower, beq_toLower rfl, any_head_lowered isDigit_toLower]

end Numeral

/-- The cause with the text of a number in lower case. No other cause quotes a letter as it stands
in the text. -/
def ReadError.Cause.lower : ReadError.Cause → ReadError.Cause
  | invalidNumber text => invalidNumber (String.ofList (lowered text.toList))
  | cause => cause

def ReadError.lower (e : ReadError) : ReadError := ⟨e.position, e.cause.lower⟩

namespace Token

theorem imaginarySuffix_lowered (cs : List Char) :
    imaginarySuffix (lowered cs) = imaginarySuffix cs := by
  cases cs with
  | nil => rfl
  | cons u rest =>
    have unit : (u.toLower == 'i' || u.toLower == 'I') = (u == 'i' || u == 'I') := by
      rw [Bool.eq_iff_iff]
      simp only [Bool.or_eq_true, beq_iff_eq]
      exact eitherCase_toLower (l := 'i') rfl u
    show imaginarySuffix (u.toLower :: lowered rest) = _
    rw [imaginarySuffix, imaginarySuffix, unit, any_head_lowered isNameChar_toLower]

theorem lexNumber_lowered (cs : List Char) :
    lexNumber (lowered cs) = (lexNumber cs).mapError ReadError.Cause.lower := by
  have value : (Numeral.read (lowered cs)).toDecimal = (Numeral.read cs).toDecimal := by
    rw [Numeral.read_lowered, Numeral.toDecimal_lower]
  have chars := Numeral.toChars_read_lowered cs
  have length : (lowered (Numeral.read cs).toChars).length = (Numeral.read cs).toChars.length :=
    List.length_map _
  simp only [lexNumber, value, chars, length, drop_lowered, imaginarySuffix_lowered]
  split
  next =>
    show _ = Except.error (ReadError.Cause.invalidNumber _)
    rw [String.toList_ofList]
  next => split <;> rfl

theorem symbol?_toLower (c : Char) : symbol? c.toLower = symbol? c :=
  apply_toLower (fun _ letter => symbol?_of_beginsWord (Bool.or_eq_true_iff.mpr (Or.inl letter))) c

/-- The same token begins in either case. -/
theorem lex_lowered (c : Char) (rest : List Char) :
    lex c.toLower (lowered rest) = (lex c rest).mapError ReadError.Cause.lower := by
  unfold lex
  rw [symbol?_toLower]
  split
  next => rfl
  next =>
    rw [beq_toLower rfl, beginsWord_toLower, Numeral.startsAt_lowered]
    split
    next =>
      simp only [head_lowered_eq_iff (d := '*') rfl]
      rfl
    next =>
      split
      next =>
        rw [takeWhile_lowered isNameChar_toLower]
        show Except.ok (ofWord (lowered (c :: rest.takeWhile isNameChar)), _) = _
        rw [lowered, ofWord_map_toLower, lowered, List.length_map]
        rfl
      next noWord =>
        split
        next => exact lexNumber_lowered (c :: rest)
        next =>
          have noLetter := (Bool.or_eq_false_iff.mp (Bool.eq_false_iff.mpr noWord)).1
          rw [toLower_of_not_letter noLetter]
          rfl

theorem scanFrom_lowered (p : Nat) (found : List (Located Token)) (cs : List Char) :
    scanFrom p found (lowered cs) = (scanFrom p found cs).mapError ReadError.lower := by
  fun_induction scanFrom p found cs with
  | case1 p found => exact scanFrom_nil p found
  | case2 p found c rest blank ih =>
    have still : isBlank c.toLower = true := (isBlank_toLower c).trans blank
    exact (scanFrom_blank still p found).trans ih
  | case3 p found c rest visible cause lexed =>
    show scanFrom p found (c.toLower :: lowered rest) = _
    rw [scanFrom_cons, isBlank_toLower, if_neg visible, lex_lowered, lexed]
    rfl
  | case4 p found c rest visible token extra lexed ih =>
    show scanFrom p found (c.toLower :: lowered rest) = _
    rw [scanFrom_cons, isBlank_toLower, if_neg visible, lex_lowered, lexed]
    rw [← drop_lowered] at ih
    exact ih

end Token

namespace Formula

/-- Two readings come to the same, but perhaps for the case of the letters in a number that is
refused. -/
inductive SameInAnyCase : Except ReadError (Expr Float) → Except ReadError (Expr Float) → Prop
  | tree (x : Expr Float) : SameInAnyCase (.ok x) (.ok x)
  | error (e : ReadError) : SameInAnyCase (.error e) (.error e)
  | number (p : Nat) {text text' : String} (h : lowered text.toList = lowered text'.toList) :
      SameInAnyCase (.error ⟨p, .invalidNumber text⟩) (.error ⟨p, .invalidNumber text'⟩)

variable {s s' : String}

theorem sameInAnyCase_refl (r : Except ReadError (Expr Float)) : SameInAnyCase r r := by
  cases r with
  | error e => exact .error e
  | ok x => exact .tree x

theorem sameInAnyCase_of_lower {e e' : ReadError} (h : e.lower = e'.lower) :
    SameInAnyCase (.error e) (.error e') := by
  obtain ⟨p, cause⟩ := e
  obtain ⟨p', cause'⟩ := e'
  obtain ⟨rfl, same⟩ := ReadError.mk.inj h
  cases cause with
  | invalidNumber text =>
    cases cause' with
    | invalidNumber text' =>
      have chars := String.ofList_injective (ReadError.Cause.invalidNumber.inj same)
      exact .number p chars
    | _ => cases same
  | _ =>
    cases cause' <;> cases same
    exact .error _

theorem scan_of_lowered (h : lowered s.toList = lowered s'.toList) :
    (Token.scan s.toList).mapError ReadError.lower =
      (Token.scan s'.toList).mapError ReadError.lower := by
  have first := Token.scanFrom_lowered 0 [] s.toList
  have second := Token.scanFrom_lowered 0 [] s'.toList
  rw [h] at first
  exact first.symm.trans second

/-- Sources that differ only in the case of their letters are read alike, whatever the name of the
variable. -/
theorem parse_inAnyCase (h : lowered s.toList = lowered s'.toList) (v : String) :
    SameInAnyCase (parse s v) (parse s' v) := by
  have length : s.length = s'.length := by
    have same := congrArg List.length h
    rwa [lowered, lowered, List.length_map, List.length_map, String.length_toList,
      String.length_toList] at same
  have scanned := scan_of_lowered h
  cases hs : Token.scan s.toList with
  | error e =>
    cases hs' : Token.scan s'.toList with
    | error e' =>
      rw [hs, hs'] at scanned
      rw [parse_of_scan_error hs, parse_of_scan_error hs']
      exact sameInAnyCase_of_lower (Except.error.inj scanned)
    | ok ts' =>
      rw [hs, hs'] at scanned
      cases scanned
  | ok ts =>
    cases hs' : Token.scan s'.toList with
    | error e' =>
      rw [hs, hs'] at scanned
      cases scanned
    | ok ts' =>
      rw [hs, hs'] at scanned
      obtain rfl : ts = ts' := Except.ok.inj scanned
      have same : parse s v = parse s' v := by
        rw [parse, parse, stages, stages, hs, hs', length]
      rw [same]
      exact sameInAnyCase_refl _

/-- The exponent that is too large is quoted with its own mark. -/
theorem parse_inAnyCase_overflow :
    parse "SIN(Z) + 1E999" "z" = .error ⟨9, .invalidNumber "1E999"⟩ ∧
    parse "sin(z) + 1e999" "z" = .error ⟨9, .invalidNumber "1e999"⟩ ∧
    SameInAnyCase (parse "SIN(Z) + 1E999" "z") (parse "sin(z) + 1e999" "z") := by
  have large : Token.scan "SIN(Z) + 1E999".toList = .error ⟨9, .invalidNumber "1E999"⟩ := by
    decide +kernel
  have small : Token.scan "sin(z) + 1e999".toList = .error ⟨9, .invalidNumber "1e999"⟩ := by
    decide +kernel
  have letters : lowered "SIN(Z) + 1E999".toList = lowered "sin(z) + 1e999".toList := by decide
  exact ⟨parse_of_scan_error large, parse_of_scan_error small, parse_inAnyCase letters "z"⟩

end Formula
end Argand
