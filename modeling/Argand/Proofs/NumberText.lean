import Argand.Proofs.ShortestDecimal
import Argand.Token.Scan

namespace Argand

/-- Some characters do not continue a numeral. -/
def EndsNumeral (rest : List Char) : Prop :=
  ∀ c ∈ rest.head?, c.isDigit = false ∧ c ≠ '.' ∧ c ≠ 'e' ∧ c ≠ 'E'

theorem takeWhile_of_head {p : Char → Bool} {cs rest : List Char} (hc : ∀ c ∈ cs, p c = true)
    (hr : ∀ c ∈ rest.head?, p c = false) : (cs ++ rest).takeWhile p = cs := by
  rw [List.takeWhile_append_of_pos hc]
  cases rest with
  | nil => exact List.append_nil cs
  | cons c rest =>
    have stop : ¬ p c = true := Bool.eq_false_iff.mp (hr c rfl)
    rw [List.takeWhile_cons_of_neg stop, List.append_nil]

theorem natOfDigits_eq (ds : List Char) : natOfDigits ds = Nat.ofDigitChars 10 ds 0 :=
  Nat.ofDigitChars_eq_foldl.symm

theorem natOfDigits_append (ds es : List Char) :
    natOfDigits (ds ++ es) = natOfDigits ds * 10 ^ es.length + natOfDigits es := by
  simp only [natOfDigits_eq, Nat.ofDigitChars_append]
  rw [Nat.ofDigitChars_eq_ofDigitChars_zero, Nat.mul_comm]

theorem natOfDigits_zeros (k : Nat) : natOfDigits (List.replicate k '0') = 0 := by
  rw [natOfDigits_eq, Nat.ofDigitChars_replicate_zero, Nat.mul_zero]

theorem natOfDigits_zeros_append (k : Nat) (ds : List Char) :
    natOfDigits (List.replicate k '0' ++ ds) = natOfDigits ds := by
  rw [natOfDigits_append, natOfDigits_zeros, Nat.zero_mul, Nat.zero_add]

theorem natOfDigits_append_zeros (ds : List Char) (k : Nat) :
    natOfDigits (ds ++ List.replicate k '0') = natOfDigits ds * 10 ^ k := by
  rw [natOfDigits_append, natOfDigits_zeros, List.length_replicate, Nat.add_zero]

/-- An exponent as it may be written. -/
structure Exponent.WellFormed (e : Exponent) : Prop where
  marker : e.marker = 'e' ∨ e.marker = 'E'
  sign : ∀ c ∈ e.sign, c = '+' ∨ c = '-'
  nonempty : e.digits ≠ []
  digits : ∀ c ∈ e.digits, c.isDigit = true

/-- A numeral as it may be written. -/
structure Numeral.WellFormed (n : Numeral) : Prop where
  whole : ∀ c ∈ n.whole, c.isDigit = true
  fraction : ∀ ds ∈ n.fraction, ∀ c ∈ ds, c.isDigit = true
  exponent : ∀ e ∈ n.exponent, e.WellFormed

theorem Exponent.WellFormed.read?_toChars {e : Exponent} {rest : List Char} (h : e.WellFormed)
    (hr : ∀ c ∈ rest.head?, c.isDigit = false) : read? (e.toChars ++ rest) = some e := by
  obtain ⟨marker, sign, digits⟩ := e
  have taken : (digits ++ rest).takeWhile Char.isDigit = digits := takeWhile_of_head h.digits hr
  have full : digits.isEmpty = false := List.isEmpty_eq_false_iff.mpr h.nonempty
  have signed : (sign.toList ++ (digits ++ rest)).head?.filter (fun c => c = '+' || c = '-') =
      sign := by
    cases sign with
    | some c => simpa [Option.filter_eq_some_iff] using h.sign c rfl
    | none =>
      obtain ⟨d, ds, rfl⟩ := List.exists_cons_of_ne_nil h.nonempty
      have digit := h.digits d List.mem_cons_self
      have plus : d ≠ '+' := by
        rintro rfl
        exact absurd digit (by decide)
      have minus : d ≠ '-' := by
        rintro rfl
        exact absurd digit (by decide)
      simp [plus, minus]
  have marked : (marker = 'e' || marker = 'E') = true := by simpa using h.marker
  simp only [toChars, List.cons_append, List.append_assoc, read?, marked, if_true, signed,
    List.drop_left, taken, full, Bool.false_eq_true, if_false]

theorem Exponent.WellFormed.head_toChars {e : Exponent} (h : e.WellFormed) (rest : List Char) :
    ∀ c ∈ (e.toChars ++ rest).head?, c.isDigit = false ∧ c ≠ '.' := by
  intro c hc
  obtain rfl : e.marker = c := by simpa [toChars] using hc
  rcases h.marker with m | m <;> rw [m] <;> decide

namespace Numeral

variable {whole : List Char}

theorem read_point (hw : ∀ c ∈ whole, c.isDigit = true) (more : List Char) :
    read (whole ++ '.' :: more) = ⟨whole, some (more.takeWhile Char.isDigit),
      Exponent.read? (more.drop (more.takeWhile Char.isDigit).length)⟩ := by
  have taken : (whole ++ '.' :: more).takeWhile Char.isDigit = whole :=
    takeWhile_of_head hw (by simp)
  simp [read, taken]

theorem read_of_no_point {tail : List Char} (hw : ∀ c ∈ whole, c.isDigit = true)
    (ht : ∀ c ∈ tail.head?, c.isDigit = false ∧ c ≠ '.') :
    read (whole ++ tail) = ⟨whole, none, Exponent.read? tail⟩ := by
  have taken : (whole ++ tail).takeWhile Char.isDigit = whole :=
    takeWhile_of_head hw fun c hc => (ht c hc).1
  have noPoint : tail.head? ≠ some '.' := fun h => (ht '.' h).2 rfl
  simp [read, taken, noPoint]

/-- A numeral is read as it is written. -/
theorem read_toChars {n : Numeral} {rest : List Char} (h : n.WellFormed)
    (hr : EndsNumeral rest) : read (n.toChars ++ rest) = n := by
  obtain ⟨whole, fraction, exponent⟩ := n
  -- Whatever follows the fraction begins with neither a digit nor a point.
  have tail : ∃ tail, (Numeral.mk whole fraction exponent).toChars ++ rest =
        whole ++ ((fraction.map ('.' :: ·)).getD [] ++ tail) ∧ Exponent.read? tail = exponent ∧
        ∀ c ∈ tail.head?, c.isDigit = false ∧ c ≠ '.' := by
    cases exponent with
    | none =>
      refine ⟨rest, by simp [toChars], ?_, fun c hc => ⟨(hr c hc).1, (hr c hc).2.1⟩⟩
      cases rest with
      | nil => rfl
      | cons c cs =>
        obtain ⟨-, -, he, hE⟩ := hr c rfl
        simp [Exponent.read?, he, hE]
    | some e =>
      have formed := h.exponent e rfl
      exact ⟨e.toChars ++ rest, by simp [toChars],
        formed.read?_toChars fun c hc => (hr c hc).1, formed.head_toChars rest⟩
  obtain ⟨tail, eq, hexp, hhead⟩ := tail
  rw [eq]
  cases fraction with
  | none =>
    show read (whole ++ tail) = _
    rw [read_of_no_point h.whole hhead, hexp]
  | some ds =>
    have taken : (ds ++ tail).takeWhile Char.isDigit = ds :=
      takeWhile_of_head (h.fraction ds rfl) fun c hc => (hhead c hc).1
    show read (whole ++ '.' :: (ds ++ tail)) = _
    rw [read_point h.whole, taken, List.drop_left, hexp]

end Numeral

namespace Decimal

variable {d : Decimal}

def numeral (d : Decimal) : Numeral :=
  let digits := Nat.toDigits 10 d.coefficient
  if 0 ≤ d.exponent then
    ⟨if d.coefficient = 0 then digits else digits ++ List.replicate d.exponent.toNat '0',
      none, none⟩
  else
    let places := (-d.exponent).toNat
    let padded := List.replicate (places + 1 - digits.length) '0' ++ digits
    ⟨padded.take (padded.length - places), some (padded.drop (padded.length - places)), none⟩

theorem toChars_numeral (d : Decimal) : d.numeral.toChars = d.toDigits := by
  unfold numeral toDigits
  simp only
  split <;> simp [Numeral.toChars]

theorem wellFormed_numeral (d : Decimal) : d.numeral.WellFormed := by
  have digits : ∀ c ∈ Nat.toDigits 10 d.coefficient, c.isDigit = true :=
    fun c hc => Nat.isDigit_of_mem_toDigits (by decide) (by decide) hc
  have zeros (k : Nat) : ∀ c ∈ List.replicate k '0', c.isDigit = true := by
    intro c hc
    rw [List.eq_of_mem_replicate hc]
    rfl
  unfold numeral
  simp only
  split
  next =>
    refine ⟨fun c hc => ?_, nofun, nofun⟩
    simp only at hc
    split at hc
    next => exact digits c hc
    next => exact (List.mem_append.mp hc).elim (digits c) (zeros _ c)
  next =>
    have padded (k : Nat) : ∀ c ∈ List.replicate k '0' ++ Nat.toDigits 10 d.coefficient,
        c.isDigit = true :=
      fun c hc => (List.mem_append.mp hc).elim (zeros k c) (digits c)
    refine ⟨fun c hc => padded _ c (List.mem_of_mem_take hc), ?_, nofun⟩
    rintro ds hds c hc
    obtain rfl := Option.some_inj.mp hds
    exact padded _ c (List.mem_of_mem_drop hc)

theorem whole_numeral_ne_nil (d : Decimal) : d.numeral.whole ≠ [] := by
  have ne : Nat.toDigits 10 d.coefficient ≠ [] := Nat.toDigits_ne_nil
  unfold numeral
  simp only
  split
  next => split <;> simp [ne]
  next =>
    intro h
    have len := congrArg List.length h
    simp at len
    omega

/-- What is written for a decimal reads as the same machine number. -/
theorem toFloat_numeral (h : d.toFloat.isFinite = true) :
    d.numeral.toDecimal.toFloat = d.toFloat := by
  have digits : natOfDigits (Nat.toDigits 10 d.coefficient) = d.coefficient := by
    rw [natOfDigits_eq, Nat.ofDigitChars_ten_toDigits]
  unfold numeral
  simp only
  split
  next hexp =>
    split
    next hz =>
      rw [Numeral.toDecimal]
      simp only [Option.getD_none, List.append_nil, digits]
      simp [hz, toFloat]
    next =>
      obtain ⟨c, e⟩ := d
      obtain ⟨k, rfl⟩ := Int.eq_ofNat_of_zero_le hexp
      rw [Numeral.toDecimal]
      simp only [Option.getD_none, List.append_nil, natOfDigits_append_zeros, digits]
      exact toFloat_shift h
  next hexp =>
    rw [Numeral.toDecimal]
    simp only [Option.getD_some, List.take_append_drop, natOfDigits_zeros_append, digits]
    congr 1
    obtain ⟨c, e⟩ := d
    simp only [not_le] at hexp
    simp
    omega

theorem toDigits_eq_cons (d : Decimal) : ∃ c cs, d.toDigits = c :: cs ∧ c.isDigit = true := by
  obtain ⟨c, cs, hw⟩ := List.exists_cons_of_ne_nil (whole_numeral_ne_nil d)
  have digit := (wellFormed_numeral d).whole c (by rw [hw]; exact List.mem_cons_self)
  rw [← toChars_numeral, Numeral.toChars, hw]
  exact ⟨c, _, rfl, digit⟩

end Decimal

/-- What may follow an operand in the text of an expression. -/
def Delimited : List Char → Prop
  | [] => True
  | c :: _ => c = ')' ∨ c = ' ' ∨ c = ','

variable {rest : List Char} {x : Float} {t : Token}

theorem Delimited.endsNumeral (h : Delimited rest) : EndsNumeral rest := by
  cases rest with
  | nil => simp [EndsNumeral]
  | cons c cs =>
    intro b hb
    obtain rfl : c = b := by simpa using hb
    rcases h with rfl | rfl | rfl <;> decide

theorem Delimited.not_nameChar (h : Delimited rest) : rest.head?.any isNameChar = false := by
  cases rest with
  | nil => rfl
  | cons c cs => rcases h with rfl | rfl | rfl <;> rfl

theorem digit_bounds {c : Char} (h : c.isDigit = true) : 48 ≤ c.toNat ∧ c.toNat ≤ 57 := by
  simp only [Char.isDigit, Bool.and_eq_true, decide_eq_true_eq, ge_iff_le,
    UInt32.le_iff_toNat_le] at h
  exact h

namespace Token

theorem scanFrom_nil (p : Nat) (found : List (Located Token)) :
    scanFrom p found [] = .ok found.reverse := by
  rw [scanFrom.eq_def]

theorem scanFrom_cons (p : Nat) (found : List (Located Token)) (c : Char) (cs : List Char) :
    scanFrom p found (c :: cs) =
      if isBlank c then scanFrom (p + 1) found cs
      else
        match lex c cs with
        | .error cause => .error ⟨p, cause⟩
        | .ok (token, extra) =>
          scanFrom (p + 1 + extra) (⟨token, p⟩ :: found) (cs.drop extra) := by
  refine (scanFrom.eq_def p found (c :: cs)).trans ?_
  cases hl : lex c cs <;> simp only [hl]

theorem scanFrom_of_lex {c : Char} (cs : List Char) (hb : isBlank c = false)
    (hl : lex c (cs ++ rest) = .ok (t, cs.length)) (p : Nat) (found : List (Located Token)) :
    scanFrom p found (c :: cs ++ rest) = scanFrom (p + 1 + cs.length) (⟨t, p⟩ :: found) rest := by
  rw [List.cons_append, scanFrom_cons, hb, hl]
  simp

theorem scanFrom_blank {c : Char} (h : isBlank c = true) (p : Nat) (found : List (Located Token)) :
    scanFrom p found (c :: rest) = scanFrom (p + 1) found rest := by
  rw [scanFrom_cons, if_pos h]

theorem not_beginsWord_of_digit {c : Char} (h : c.isDigit = true) :
    (c.isAlpha || c == '_') = false := by
  obtain ⟨lo, hi⟩ := digit_bounds h
  have upper : ¬ 'A'.val ≤ c.val := fun hle => by
    have := UInt32.le_iff_toNat_le.mp hle
    exact absurd (this.trans hi) (by decide)
  have lower : ¬ 'a'.val ≤ c.val := fun hle => by
    have := UInt32.le_iff_toNat_le.mp hle
    exact absurd (this.trans hi) (by decide)
  have notLine : c ≠ '_' := by
    rintro rfl
    exact absurd h (by decide)
  simp only [Char.isAlpha, Char.isUpper, Char.isLower, ge_iff_le, upper, lower, decide_false,
    Bool.false_and, Bool.or_false, beq_eq_false_iff_ne.mpr notLine]
  simp

/-- What starts a numeral starts no other token. -/
theorem lex_of_startsAt {c : Char} {cs : List Char} (h : Numeral.startsAt c cs = true) :
    lex c cs = lexNumber (c :: cs) := by
  rcases Bool.or_eq_true_iff.mp h with digit | point
  · have notSymbol : symbol? c = none := by
      unfold symbol?
      split <;> first | rfl | exact absurd digit (by decide)
    have notStar : (c == '*') = false := by
      rw [beq_eq_false_iff_ne]
      rintro rfl
      exact absurd digit (by decide)
    simp [lex, notSymbol, notStar, not_beginsWord_of_digit digit, h]
  · obtain rfl : c = '.' := eq_of_beq (Bool.and_eq_true_iff.mp point).1
    simp [lex, symbol?, h]

/-- What the scanner makes of a text that starts with a numeral. -/
inductive LexesNumber (cs : List Char) : Except ReadError.Cause Lexeme → Prop
  | refused (h : (Numeral.read cs).toDecimal.toFloat.isFinite = false) :
      LexesNumber cs (.error (.invalidNumber (String.ofList (Numeral.read cs).toChars)))
  | imaginary (h : (Numeral.read cs).toDecimal.toFloat.isFinite = true)
      (unit : imaginarySuffix (cs.drop (Numeral.read cs).toChars.length) = true) : LexesNumber cs
        (.ok (imaginary (Numeral.read cs).toDecimal.toFloat, (Numeral.read cs).toChars.length))
  | number (h : (Numeral.read cs).toDecimal.toFloat.isFinite = true)
      (noUnit : imaginarySuffix (cs.drop (Numeral.read cs).toChars.length) = false) : LexesNumber cs
        (.ok (number (Numeral.read cs).toDecimal.toFloat, (Numeral.read cs).toChars.length - 1))

theorem lexesNumber_of_lexNumber {cs : List Char} {r : Except ReadError.Cause Lexeme}
    (h : lexNumber cs = r) : LexesNumber cs r := by
  subst h
  unfold lexNumber
  dsimp only
  split
  next infinite => exact .refused (by simpa using infinite)
  next finite =>
    have finite : (Numeral.read cs).toDecimal.toFloat.isFinite = true := by simpa using finite
    split
    next unit => exact .imaginary finite unit
    next noUnit => exact .number finite (Bool.eq_false_iff.mpr noUnit)

/-- What the scanner makes of a character that is not blank and of what follows it. -/
inductive Lexes (c : Char) (rest : List Char) : Except ReadError.Cause Lexeme → Prop
  | symbol {t : Token} (h : symbol? c = some t) : Lexes c rest (.ok (t, 0))
  | power (hc : c = '*') (h : rest.head? = some '*') : Lexes c rest (.ok (caret, 1))
  | star (hc : c = '*') (h : rest.head? ≠ some '*') : Lexes c rest (.ok (star, 0))
  | word (h : (c.isAlpha || c == '_') = true) : Lexes c rest
      (.ok (ofWord (c :: rest.takeWhile isNameChar), (rest.takeWhile isNameChar).length))
  | number {r : Except ReadError.Cause Lexeme} (h : Numeral.startsAt c rest = true)
      (hr : lexNumber (c :: rest) = r) : Lexes c rest r
  | refused (noSymbol : symbol? c = none) (noStar : c ≠ '*')
      (noLetter : (c.isAlpha || c == '_') = false) (h : Numeral.startsAt c rest = false) :
      Lexes c rest (.error (.unexpectedCharacter c))

theorem lexes_of_lex {c : Char} {cs : List Char} {r : Except ReadError.Cause Lexeme}
    (h : lex c cs = r) : Lexes c cs r := by
  subst h
  unfold lex
  split
  next found => exact .symbol found
  next noSymbol =>
    split
    next isStar =>
      split
      next double => exact .power (eq_of_beq isStar) double
      next single => exact .star (eq_of_beq isStar) single
    next noStar =>
      split
      next letter => exact .word letter
      next noLetter =>
        split
        next starts => exact .number starts rfl
        next other =>
          exact .refused noSymbol (fun h => noStar (beq_iff_eq.mpr h))
            (Bool.eq_false_iff.mpr noLetter) (Bool.eq_false_iff.mpr other)

theorem lex_digit {c : Char} (h : c.isDigit = true) (cs : List Char) :
    lex c cs = lexNumber (c :: cs) :=
  lex_of_startsAt (by simp [Numeral.startsAt, h])

theorem not_blank_digit {c : Char} (h : c.isDigit = true) : isBlank c = false := by
  obtain ⟨lo, hi⟩ := digit_bounds h
  simp [isBlank]
  omega

/-- What becomes of a numeral that is read from the front of a text. -/
theorem lexNumber_of_read {n : Numeral} (h : Numeral.read (n.toChars ++ rest) = n) :
    lexNumber (n.toChars ++ rest) =
      if n.toDecimal.toFloat.isFinite then
        .ok (if imaginarySuffix rest then (imaginary n.toDecimal.toFloat, n.toChars.length)
          else (number n.toDecimal.toFloat, n.toChars.length - 1))
      else .error (.invalidNumber (String.ofList n.toChars)) := by
  simp only [lexNumber, h, List.drop_left]
  cases n.toDecimal.toFloat.isFinite <;> cases imaginarySuffix rest <;> rfl

theorem lexNumber_toChars {n : Numeral} (h : n.WellFormed)
    (hf : n.toDecimal.toFloat.isFinite = true) (hr : EndsNumeral rest) :
    lexNumber (n.toChars ++ rest) = .ok (if imaginarySuffix rest
      then (imaginary n.toDecimal.toFloat, n.toChars.length)
      else (number n.toDecimal.toFloat, n.toChars.length - 1)) := by
  rw [lexNumber_of_read (Numeral.read_toChars h hr), if_pos hf]

theorem lexNumber_toDigits {d : Decimal} (hf : d.toFloat.isFinite = true) (hr : EndsNumeral rest) :
    lexNumber (d.toDigits ++ rest) = .ok (if imaginarySuffix rest
      then (imaginary d.toFloat, d.toDigits.length)
      else (number d.toFloat, d.toDigits.length - 1)) := by
  have value := Decimal.toFloat_numeral hf
  have lexed := lexNumber_toChars d.wellFormed_numeral (by rwa [value]) hr
  rwa [value, Decimal.toChars_numeral] at lexed

theorem floatText_eq (hx : Plain x) :
    floatText x = String.ofList (Decimal.shortest x).toDigits := by
  have number : x.isNaN = false ∧ x.isInf = false := by
    change x.toModel.unpack.isNaN = false ∧ x.toModel.unpack.isInf = false
    rcases plain_iff.mp hx with hu | ⟨m, e, hm, hu⟩ <;> rw [hu] <;> exact ⟨rfl, rfl⟩
  have unsigned : (x.toBits >>> 63 == 1) = false := hx.unsigned
  rw [floatText, if_neg (ne_true_of_eq_false number.1)]
  simp only [unsigned, number.2, Bool.false_eq_true, if_false, String.empty_append]

theorem scanFrom_number (hx : Plain x) (hr : Delimited rest) (p : Nat)
    (found : List (Located Token)) : ∃ q, scanFrom p found ((floatText x).toList ++ rest) =
      scanFrom q (⟨.number x, p⟩ :: found) rest := by
  have reads := Decimal.toFloat_shortest hx
  have suffix : imaginarySuffix rest = false := by
    cases rest with
    | nil => rfl
    | cons c cs => rcases hr with rfl | rfl | rfl <;> rfl
  obtain ⟨c, cs, digits, digit⟩ := (Decimal.shortest x).toDigits_eq_cons
  have lexed := lexNumber_toDigits (d := Decimal.shortest x) (by rw [reads]; exact hx.finite)
    hr.endsNumeral
  rw [suffix, if_neg Bool.false_ne_true, digits, reads, List.cons_append,
    ← lex_digit digit] at lexed
  rw [floatText_eq hx, String.toList_ofList, digits]
  exact ⟨_, scanFrom_of_lex _ (not_blank_digit digit) lexed p found⟩

theorem scanFrom_imaginary (hx : Plain x) (hr : Delimited rest) (p : Nat)
    (found : List (Located Token)) : ∃ q, scanFrom p found ((floatText x ++ "i").toList ++ rest) =
      scanFrom q (⟨.imaginary x, p⟩ :: found) rest := by
  have reads := Decimal.toFloat_shortest hx
  have suffix : imaginarySuffix ('i' :: rest) = true := by
    simp [imaginarySuffix, hr.not_nameChar]
  obtain ⟨c, cs, digits, digit⟩ := (Decimal.shortest x).toDigits_eq_cons
  have ends : EndsNumeral ('i' :: rest) := by
    intro c hc
    obtain rfl : 'i' = c := by simpa using hc
    decide
  have lexed := lexNumber_toDigits (d := Decimal.shortest x) (by rw [reads]; exact hx.finite) ends
  rw [suffix, if_pos rfl, digits, reads, List.cons_append, ← lex_digit digit] at lexed
  have text : (floatText x ++ "i").toList ++ rest = c :: (cs ++ ['i']) ++ rest := by
    rw [String.toList_append, floatText_eq hx, String.toList_ofList, digits]
    rfl
  have whole : lex c (cs ++ ['i'] ++ rest) = .ok (.imaginary x, (cs ++ ['i']).length) := by
    simpa using lexed
  rw [text]
  exact ⟨_, scanFrom_of_lex _ (not_blank_digit digit) whole p found⟩

end Token
end Argand
