import Argand.Proofs.DecimalOverflow
import Argand.Proofs.NumeralLanguage
import Argand.Proofs.TokenPlaces

namespace Argand

open Machine

namespace Numeral

/-- The number that a numeral is written for. -/
def value (n : Numeral) : ℚ :=
  let fraction := n.fraction.getD []
  (natOfDigits n.whole + natOfDigits fraction / 10 ^ fraction.length) *
    10 ^ (n.exponent.map Exponent.toInt).getD 0

theorem toRat_toDecimal (n : Numeral) : n.toDecimal.toRat = n.value := by
  rw [toDecimal, Decimal.toRat, value]
  dsimp only
  rw [natOfDigits_append, zpow_sub₀ (by norm_num), zpow_natCast]
  push_cast
  field_simp

theorem isFinite_toDecimal_iff (n : Numeral) :
    n.toDecimal.toFloat.isFinite = true ↔ n.value < overflowBound := by
  rw [Decimal.isFinite_toFloat_iff, toRat_toDecimal]

end Numeral

theorem Plain.nonneg {x : Float} (h : Plain x) : 0 ≤ x := by
  rw [float_le_iff rfl h.finite]
  have zero : toRat 0 = 0 := rfl
  rcases plain_iff.mp h with hu | ⟨m, e, hm, hu⟩
  · rw [eq_zero_of_unpack hu]
    exact le_rfl
  · rw [zero, toRat_of_unpack hu]
    positivity

namespace Token

/-- The imaginary unit stands here, and not the beginning of a longer word. -/
def ImaginaryUnit : List Char → Prop
  | [] => False
  | u :: rest => (u = 'i' ∨ u = 'I') ∧ ∀ v ∈ rest.head?, ¬ (v.isAlphanum = true ∨ v = '_')

theorem imaginarySuffix_iff (cs : List Char) : imaginarySuffix cs = true ↔ ImaginaryUnit cs := by
  cases cs with
  | nil => simp [imaginarySuffix, ImaginaryUnit]
  | cons u rest => cases rest <;> simp [imaginarySuffix, ImaginaryUnit, isNameChar]

/-- What the scanner makes of a numeral that it meets at a position in front of more text. -/
structure ScansNumeral (p : Nat) (found : List (Located Token)) (n : Numeral)
    (more : List Char) : Prop where
  overflow : overflowBound ≤ n.value → scanFrom p found (n.toChars ++ more) =
    .error ⟨p, .invalidNumber (String.ofList n.toChars)⟩
  imaginary : n.value < overflowBound → ImaginaryUnit more →
    scanFrom p found (n.toChars ++ more) =
      scanFrom (p + n.toChars.length + 1) (⟨.imaginary n.toDecimal.toFloat, p⟩ :: found) more.tail
  number : n.value < overflowBound → ¬ ImaginaryUnit more →
    scanFrom p found (n.toChars ++ more) =
      scanFrom (p + n.toChars.length) (⟨.number n.toDecimal.toFloat, p⟩ :: found) more

variable {c : Char} {rest : List Char}

theorem scansNumeral_of_read {n : Numeral} {tail more : List Char} (chars : n.toChars = c :: tail)
    (visible : isBlank c = false) (starts : Numeral.startsAt c (tail ++ more) = true)
    (hn : Numeral.read (n.toChars ++ more) = n) (p : Nat) (found : List (Located Token)) :
    ScansNumeral p found n more := by
  have lexed := lexNumber_of_read hn
  rw [chars, List.cons_append, ← lex_of_startsAt starts] at lexed
  refine ⟨fun large => ?_, fun small unit => ?_, fun small noUnit => ?_⟩
  · rw [if_neg (mt n.isFinite_toDecimal_iff.mp (not_lt.mpr large)), ← chars] at lexed
    rw [chars, List.cons_append, scanFrom_cons, visible, lexed, ← chars]
    rfl
  · rw [if_pos (n.isFinite_toDecimal_iff.mpr small),
      if_pos ((imaginarySuffix_iff more).mpr unit)] at lexed
    cases more with
    | nil => exact unit.elim
    | cons u more =>
      -- The unit belongs to the characters that the token takes, not to those of the numeral.
      have lexed : lex c (tail ++ [u] ++ more) =
          .ok (.imaginary n.toDecimal.toFloat, (tail ++ [u]).length) := by
        rw [List.append_assoc, List.length_append]
        exact lexed
      have taken := scanFrom_of_lex (tail ++ [u]) visible lexed p found
      have text : n.toChars ++ u :: more = c :: (tail ++ [u]) ++ more := by simp [chars]
      rw [text, taken, chars, List.length_append, List.length_cons, Nat.add_right_comm p]
      rfl
  · rw [if_pos (n.isFinite_toDecimal_iff.mpr small),
      if_neg (mt (imaginarySuffix_iff more).mp noUnit)] at lexed
    have taken := scanFrom_of_lex tail visible lexed p found
    rw [chars, taken, List.length_cons, Nat.add_right_comm, Nat.add_assoc]

/-- Where a numeral starts, the longest one is scanned. -/
theorem scansNumeral_read (h : Numeral.startsAt c rest = true) (p : Nat)
    (found : List (Located Token)) :
    ∃ more, (Numeral.read (c :: rest)).toChars ++ more = c :: rest ∧
      ScansNumeral p found (Numeral.read (c :: rest)) more := by
  obtain ⟨more, eq⟩ := Numeral.toChars_read_prefix (c :: rest)
  obtain ⟨tail, chars, -⟩ := Numeral.exists_toChars_read h
  have visible : isBlank c = false :=
    (Numeral.wellFormed_read _).not_blank c (chars ▸ List.mem_cons_self)
  have again : Numeral.read ((Numeral.read (c :: rest)).toChars ++ more) =
      Numeral.read (c :: rest) := congrArg Numeral.read eq
  refine ⟨more, eq, scansNumeral_of_read chars visible ?_ again p found⟩
  rw [chars, List.cons_append, List.cons.injEq] at eq
  rwa [eq.2]

theorem startsAt_of_invalidNumber {text : String} (h : lex c rest = .error (.invalidNumber text)) :
    Numeral.startsAt c rest = true := by
  cases lexes_of_lex h with
  | number starts => exact starts

/-- A numeral that is refused overflows. -/
theorem overflow_of_invalidNumber {text : String}
    (h : lex c rest = .error (.invalidNumber text)) :
    text = String.ofList (Numeral.read (c :: rest)).toChars ∧
      overflowBound ≤ (Numeral.read (c :: rest)).value := by
  rw [lex_of_startsAt (startsAt_of_invalidNumber h)] at h
  cases lexesNumber_of_lexNumber h with
  | refused infinite =>
    refine ⟨rfl, not_lt.mp fun small => ?_⟩
    rw [(Numeral.isFinite_toDecimal_iff _).mpr small] at infinite
    cases infinite

/-- Where a numeral starts, the longest one is taken, which is the text of a machine number. It is
refused only beyond the bound, and the numbers that are found are finite and not negative. -/
theorem scan_numbers (source : List Char) :
    (∀ p found c rest, source.drop p = c :: rest → Numeral.startsAt c rest = true →
      ∃ n more, n.WellFormed ∧ n.toChars ++ more = source.drop p ∧
        IsLongest Numeral.language (source.drop p) n.toChars ∧ n.toChars ∈ floatLanguage ∧
        ScansNumeral p found n more) ∧
    (∀ p text, scan source = .error ⟨p, .invalidNumber text⟩ →
      ∃ n : Numeral, n.WellFormed ∧ text = String.ofList n.toChars ∧
        IsLongest Numeral.language (source.drop p) n.toChars ∧ overflowBound ≤ n.value) ∧
    ∀ ts, scan source = .ok ts → ∀ t ∈ ts, ∀ x, t.value = .number x ∨ t.value = .imaginary x →
      Plain x ∧ 0 ≤ x := by
  refine ⟨?_, ?_, ?_⟩
  · intro p found c rest here starts
    obtain ⟨more, eq, scans⟩ := scansNumeral_read starts p found
    have longest := Numeral.isLongest_read starts
    rw [here]
    exact ⟨_, more, Numeral.wellFormed_read _, eq, longest, Numeral.language_le longest.mem, scans⟩
  · intro p text refused
    obtain ⟨c, rest, here, -, lexed⟩ := lexesAt_of_scan_error refused
    obtain ⟨eq, large⟩ := overflow_of_invalidNumber lexed
    rw [here]
    exact ⟨_, Numeral.wellFormed_read _, eq,
      Numeral.isLongest_read (startsAt_of_invalidNumber lexed), large⟩
  · intro ts scanned t ht x value
    have plain := plain_scanFrom source 0 [] ts nofun scanned t ht
    rcases value with value | value <;> rw [value] at plain <;> exact ⟨plain, plain.nonneg⟩

/-- A point may stand right before the exponent, an unfinished exponent is not taken, and a numeral
beyond the bound is refused. -/
theorem scan_numbers_shapes :
    (∃ n more, n.WellFormed ∧ n.toChars ++ more = "1.e3I".toList ∧
      IsLongest Numeral.language "1.e3I".toList n.toChars ∧ n.toChars ∈ floatLanguage ∧
      ScansNumeral 0 [] n more) ∧
    (∃ n : Numeral, n.WellFormed ∧ "1e309" = String.ofList n.toChars ∧
      IsLongest Numeral.language "1e309e+".toList n.toChars ∧ overflowBound ≤ n.value) ∧
    Plain 2 ∧ (0 : Float) ≤ 2 := by
  refine ⟨?_, ?_, ?_⟩
  · exact (scan_numbers "1.e3I".toList).1 0 [] '1' ".e3I".toList rfl rfl
  · have refused : scan "2*1e309e+".toList = .error ⟨2, .invalidNumber "1e309"⟩ := by
      decide +kernel
    exact (scan_numbers "2*1e309e+".toList).2.1 2 "1e309" refused
  · have scanned : scan "2e+i".toList =
        .ok [⟨.number 2, 0⟩, ⟨.name "e", 1⟩, ⟨.plus, 2⟩, ⟨.imaginary 1, 3⟩] := by
      decide +kernel
    exact (scan_numbers "2e+i".toList).2.2 _ scanned ⟨.number 2, 0⟩ List.mem_cons_self 2
      (Or.inl rfl)

end Token
end Argand
