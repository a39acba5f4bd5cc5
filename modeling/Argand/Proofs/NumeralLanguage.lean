import Argand.Proofs.Lexemes

namespace Argand

open Computability

/-- The texts of one character of a class. -/
def oneOf (p : Char → Bool) : Language Char := {w | ∃ c, p c = true ∧ w = [c]}

/-- A digit or more. -/
def someDigits : Language Char := oneOf Char.isDigit * (oneOf Char.isDigit)∗

def exponentLanguage : Language Char :=
  oneOf (fun c => c = 'e' || c = 'E') * (1 + oneOf fun c => c = '+' || c = '-') * someDigits

/-- Digits, which a point and digits may follow, or a point before digits; then perhaps an
exponent. -/
def Numeral.language : Language Char :=
  (someDigits * (1 + {['.']} * (oneOf Char.isDigit)∗) + {['.']} * someDigits) *
    (1 + exponentLanguage)

/-- The texts of machine numbers that have neither a sign nor a name: digits with a point nowhere,
behind digits or before digits; then perhaps an exponent. -/
def floatLanguage : Language Char :=
  (someDigits + someDigits * {['.']} * (oneOf Char.isDigit)∗ +
    (oneOf Char.isDigit)∗ * {['.']} * someDigits) * (1 + exponentLanguage)

/-- A numeral is the text of a machine number. -/
theorem Numeral.language_le : Numeral.language ≤ floatLanguage := by
  refine mul_le_mul_left ?_ _
  rw [mul_add, mul_one, ← mul_assoc]
  refine add_le_add_right ?_ _
  rw [mul_assoc]
  exact le_mul_of_one_le_left' one_le_kstar

variable {w : List Char}

theorem mem_one_add {l : Language Char} : w ∈ 1 + l ↔ w = [] ∨ w ∈ l := by
  rw [Language.mem_add, Language.mem_one]

theorem mem_digits : w ∈ (oneOf Char.isDigit)∗ ↔ ∀ c ∈ w, c.isDigit = true := by
  rw [Language.mem_kstar]
  constructor
  · rintro ⟨parts, rfl, each⟩ c hc
    obtain ⟨part, mem, hc⟩ := List.mem_flatten.mp hc
    obtain ⟨d, digit, rfl⟩ := each part mem
    rwa [List.mem_singleton.mp hc]
  · intro digits
    refine ⟨w.map fun c => [c], by simp [← List.flatMap_def], fun part mem => ?_⟩
    obtain ⟨c, hc, rfl⟩ := List.mem_map.mp mem
    exact ⟨c, digits c hc, rfl⟩

theorem mem_someDigits : w ∈ someDigits ↔ w ≠ [] ∧ ∀ c ∈ w, c.isDigit = true := by
  rw [someDigits, Language.mem_mul]
  constructor
  · rintro ⟨-, ⟨c, digit, rfl⟩, ds, digits, rfl⟩
    exact ⟨List.cons_ne_nil c ds, List.forall_mem_cons.mpr ⟨digit, mem_digits.mp digits⟩⟩
  · rintro ⟨nonempty, digits⟩
    obtain ⟨c, ds, rfl⟩ := List.exists_cons_of_ne_nil nonempty
    obtain ⟨digit, digits⟩ := List.forall_mem_cons.mp digits
    exact ⟨[c], ⟨c, digit, rfl⟩, ds, mem_digits.mpr digits, rfl⟩

theorem mem_exponentLanguage :
    w ∈ exponentLanguage ↔ ∃ e : Exponent, e.WellFormed ∧ e.toChars = w := by
  rw [exponentLanguage, mul_assoc, Language.mem_mul]
  constructor
  · rintro ⟨-, ⟨marker, marked, rfl⟩, signed, mem, rfl⟩
    obtain ⟨sign, hs, digits, hd, rfl⟩ := Language.mem_mul.mp mem
    obtain ⟨nonempty, digits⟩ := mem_someDigits.mp hd
    have marked : marker = 'e' ∨ marker = 'E' := by simpa using marked
    rcases mem_one_add.mp hs with rfl | ⟨c, signed, rfl⟩
    · exact ⟨⟨marker, none, _⟩, ⟨marked, nofun, nonempty, digits⟩, rfl⟩
    · have signed : c = '+' ∨ c = '-' := by simpa using signed
      refine ⟨⟨marker, some c, _⟩, ⟨marked, ?_, nonempty, digits⟩, rfl⟩
      rintro d ⟨⟩
      exact signed
  · rintro ⟨⟨marker, sign, digits⟩, formed, rfl⟩
    have marked := formed.marker
    refine ⟨[marker], ⟨marker, by simpa using marked, rfl⟩, _, ?_, rfl⟩
    refine Language.append_mem_mul ?_ (mem_someDigits.mpr ⟨formed.nonempty, formed.digits⟩)
    cases sign with
    | none => exact mem_one_add.mpr (Or.inl rfl)
    | some c => exact mem_one_add.mpr (Or.inr ⟨c, by simpa using formed.sign c rfl, rfl⟩)

theorem mem_point {l : Language Char} : w ∈ {['.']} * l ↔ ∃ ds ∈ l, '.' :: ds = w := by
  rw [Language.mem_mul]
  constructor
  · rintro ⟨point, hp, ds, mem, rfl⟩
    obtain rfl : point = ['.'] := hp
    exact ⟨ds, mem, rfl⟩
  · rintro ⟨ds, mem, rfl⟩
    exact ⟨['.'], rfl, ds, mem, rfl⟩

namespace Numeral

/-- There is a digit in front of the exponent. -/
def HasDigit (n : Numeral) : Prop := n.whole = [] → ∃ d ds, n.fraction = some (d :: ds)

theorem mem_language_of_wellFormed {n : Numeral} (h : n.WellFormed) (hd : n.HasDigit) :
    n.toChars ∈ Numeral.language := by
  obtain ⟨whole, fraction, exponent⟩ := n
  refine Language.append_mem_mul ?_ ?_
  · rcases eq_or_ne whole [] with rfl | nonempty
    · obtain ⟨d, ds, rfl⟩ := hd rfl
      have digits := mem_someDigits.mpr ⟨List.cons_ne_nil d ds, h.fraction _ rfl⟩
      exact (Language.mem_add _ _ _).mpr (Or.inr (mem_point.mpr ⟨_, digits, rfl⟩))
    · refine (Language.mem_add _ _ _).mpr (Or.inl (Language.append_mem_mul
        (mem_someDigits.mpr ⟨nonempty, h.whole⟩) (mem_one_add.mpr ?_)))
      cases fraction with
      | none => exact Or.inl rfl
      | some ds => exact Or.inr (mem_point.mpr ⟨ds, mem_digits.mpr (h.fraction ds rfl), rfl⟩)
  · cases exponent with
    | none => exact mem_one_add.mpr (Or.inl rfl)
    | some e => exact mem_one_add.mpr (Or.inr (mem_exponentLanguage.mpr ⟨e, h.exponent e rfl, rfl⟩))

theorem exists_of_mem_language (h : w ∈ Numeral.language) :
    ∃ n : Numeral, n.WellFormed ∧ n.HasDigit ∧ n.toChars = w := by
  obtain ⟨front, hf, back, hb, rfl⟩ := Language.mem_mul.mp h
  obtain ⟨exponent, formed, rfl⟩ : ∃ exponent : Option Exponent,
      (∀ e ∈ exponent, e.WellFormed) ∧ (exponent.map Exponent.toChars).getD [] = back := by
    rcases mem_one_add.mp hb with rfl | mem
    · exact ⟨none, by simp, rfl⟩
    · obtain ⟨e, formed, rfl⟩ := mem_exponentLanguage.mp mem
      exact ⟨some e, by simpa using formed, rfl⟩
  rcases (Language.mem_add _ _ _).mp hf with mem | mem
  · obtain ⟨whole, hw, fraction, hp, rfl⟩ := Language.mem_mul.mp mem
    obtain ⟨nonempty, digits⟩ := mem_someDigits.mp hw
    rcases mem_one_add.mp hp with rfl | mem
    · exact ⟨⟨whole, none, exponent⟩, ⟨digits, by simp, formed⟩, fun h => absurd h nonempty,
        by simp [toChars]⟩
    · obtain ⟨ds, hds, rfl⟩ := mem_point.mp mem
      have places := mem_digits.mp hds
      exact ⟨⟨whole, some ds, exponent⟩, ⟨digits, by simpa using places, formed⟩,
        fun h => absurd h nonempty, by simp [toChars]⟩
  · obtain ⟨ds, hds, rfl⟩ := mem_point.mp mem
    obtain ⟨nonempty, places⟩ := mem_someDigits.mp hds
    obtain ⟨d, ds, rfl⟩ := List.exists_cons_of_ne_nil nonempty
    exact ⟨⟨[], some (d :: ds), exponent⟩, ⟨by simp, by simpa using places, formed⟩,
      fun _ => ⟨d, ds, rfl⟩, rfl⟩

theorem hasDigit_read {c : Char} {rest : List Char} (h : startsAt c rest = true) :
    (read (c :: rest)).HasDigit := by
  intro none
  rcases Bool.or_eq_true_iff.mp h with digit | point
  · have whole : (read (c :: rest)).whole = _ := List.takeWhile_cons_of_pos digit
    exact absurd (whole.symm.trans none) (List.cons_ne_nil _ _)
  · obtain ⟨point, next⟩ := Bool.and_eq_true_iff.mp point
    obtain rfl := eq_of_beq point
    cases rest with
    | nil => cases next
    | cons d ds => exact ⟨d, _, congrArg some (List.takeWhile_cons_of_pos next)⟩

/-- A numeral starts where a text of the language stands in front. -/
theorem startsAt_iff {c : Char} {rest : List Char} :
    startsAt c rest = true ↔ ∃ u ∈ Numeral.language, u <+: c :: rest := by
  constructor
  · intro h
    exact ⟨_, mem_language_of_wellFormed (wellFormed_read _) (hasDigit_read h),
      toChars_read_prefix _⟩
  · rintro ⟨u, mem, more, eq⟩
    obtain ⟨⟨whole, fraction, exponent⟩, formed, digit, rfl⟩ := exists_of_mem_language mem
    cases whole with
    | nil =>
      obtain ⟨d, ds, rfl⟩ := digit rfl
      obtain ⟨rfl, rfl⟩ := List.cons.inj eq
      have digit : d.isDigit = true := formed.fraction _ rfl d List.mem_cons_self
      simp [startsAt, digit]
    | cons d ds =>
      obtain ⟨rfl, -⟩ := List.cons.inj eq
      have digit : d.isDigit = true := formed.whole d List.mem_cons_self
      simp [startsAt, digit]

end Numeral

/-- Of the characters of an exponent none is left behind. -/
theorem Exponent.WellFormed.prefix_read? {e : Exponent} (h : e.WellFormed) (rest : List Char) :
    ∃ e', read? (e.toChars ++ rest) = some e' ∧ e.toChars <+: e'.toChars := by
  obtain ⟨marker, sign, digits⟩ := e
  have longer : (Exponent.mk marker sign (digits ++ rest.takeWhile Char.isDigit)).WellFormed :=
    { marker := h.marker
      sign := h.sign
      nonempty := List.append_ne_nil_of_left_ne_nil h.nonempty _
      digits := List.forall_mem_append.mpr ⟨h.digits, fun c hc => List.mem_takeWhile_imp hc⟩ }
  have ends : ∀ c ∈ (rest.dropWhile Char.isDigit).head?, c.isDigit = false := by
    intro c hc
    have first := List.head?_dropWhile_not Char.isDigit rest
    rw [hc] at first
    exact first
  have reads := longer.read?_toChars ends
  simp only [toChars, List.cons_append, List.append_assoc, List.takeWhile_append_dropWhile]
    at reads
  refine ⟨_, by simpa [toChars] using reads, rest.takeWhile Char.isDigit, ?_⟩
  simp [toChars]

/-- Of the characters of a numeral none is left behind. -/
theorem Numeral.WellFormed.prefix_read {n : Numeral} (h : n.WellFormed) (rest : List Char) :
    n.toChars <+: (read (n.toChars ++ rest)).toChars := by
  obtain ⟨whole, fraction, exponent⟩ := n
  -- Without an exponent the digits may go on in the rest; with one, they end at its marker.
  cases exponent with
  | none =>
    cases fraction with
    | none =>
      have taken : (read (whole ++ rest)).whole = whole ++ rest.takeWhile Char.isDigit :=
        List.takeWhile_append_of_pos h.whole
      simp only [toChars, Option.map_none, Option.getD_none, List.append_nil, taken,
        List.append_assoc]
      exact List.prefix_append _ _
    | some ds =>
      have taken : (ds ++ rest).takeWhile Char.isDigit = ds ++ rest.takeWhile Char.isDigit :=
        List.takeWhile_append_of_pos (h.fraction ds rfl)
      simp only [toChars, Option.map_none, Option.map_some, Option.getD_none, Option.getD_some,
        List.append_nil, List.append_assoc, List.cons_append, read_point h.whole, taken]
      exact (List.prefix_append_right_inj whole).mpr
        ((List.prefix_cons_inj '.').mpr (List.prefix_append ds _))
  | some e =>
    have formed := h.exponent e rfl
    have head := formed.head_toChars rest
    obtain ⟨e', reads, longer⟩ := formed.prefix_read? rest
    cases fraction with
    | none =>
      simp only [toChars, Option.map_none, Option.map_some, Option.getD_none, Option.getD_some,
        List.append_nil, List.append_assoc, read_of_no_point h.whole head, reads]
      exact (List.prefix_append_right_inj whole).mpr longer
    | some ds =>
      have taken : (ds ++ (e.toChars ++ rest)).takeWhile Char.isDigit = ds :=
        takeWhile_of_head (h.fraction ds rfl) fun c hc => (head c hc).1
      simp only [toChars, Option.map_some, Option.getD_some, List.append_assoc, List.cons_append,
        read_point h.whole, taken, List.drop_left, reads]
      exact (List.prefix_append_right_inj whole).mpr
        ((List.prefix_cons_inj '.').mpr ((List.prefix_append_right_inj ds).mpr longer))

/-- A text is the longest one of a language in front of the characters. -/
structure IsLongest (l : Language Char) (cs w : List Char) : Prop where
  mem : w ∈ l
  front : w <+: cs
  longest : ∀ u ∈ l, u <+: cs → u.length ≤ w.length

/-- What is read where a numeral starts is the longest numeral there. -/
theorem Numeral.isLongest_read {c : Char} {rest : List Char} (h : startsAt c rest = true) :
    IsLongest Numeral.language (c :: rest) (read (c :: rest)).toChars where
  mem := mem_language_of_wellFormed (wellFormed_read _) (hasDigit_read h)
  front := toChars_read_prefix _
  longest := by
    rintro u mem ⟨more, eq⟩
    obtain ⟨n, formed, -, rfl⟩ := exists_of_mem_language mem
    rw [← eq]
    exact (formed.prefix_read more).length_le

end Argand
