import Argand.Proofs.Lexemes

namespace Argand

/-- The same value, so many places further on. -/
def Located.shift {α : Type} (k : Nat) (t : Located α) : Located α := ⟨t.value, t.position + k⟩

/-- The same fault, so many places further on. -/
def ReadError.shift (k : Nat) (e : ReadError) : ReadError := ⟨e.position + k, e.cause⟩

variable {b c : Char} {p : Nat}

theorem ne_of_blank (hb : isBlank b = true) (hc : isBlank c = false) : b ≠ c := by
  rintro rfl
  exact Bool.noConfusion (hb.symm.trans hc)

theorem not_digit_of_blank (hb : isBlank b = true) : b.isDigit = false := by
  by_contra digit
  exact ne_of_blank hb (Token.not_blank_digit (Bool.eq_true_of_not_eq_false digit)) rfl

theorem not_nameChar_of_blank (hb : isBlank b = true) : isNameChar b = false := by
  by_contra nameChar
  exact ne_of_blank hb (Token.not_blank_nameChar (Bool.eq_true_of_not_eq_false nameChar)) rfl

/-- What ends in front of the text behind it is taken as if there were nothing behind it. -/
theorem takeWhile_append_of_head {q : Char → Bool} (hb : q b = false) (cs more : List Char) :
    (cs ++ b :: more).takeWhile q = cs.takeWhile q := by
  induction cs with
  | nil => simp [hb]
  | cons c cs ih => simp [List.takeWhile_cons, ih]

theorem filter_head_append {q : Char → Bool} (hb : q b = false) (cs more : List Char) :
    (cs ++ b :: more).head?.filter q = cs.head?.filter q := by
  cases cs with
  | nil => simp [hb]
  | cons => rfl

theorem any_head_append {q : Char → Bool} (hb : q b = false) (cs more : List Char) :
    (cs ++ b :: more).head?.any q = cs.head?.any q := by
  rw [← Option.isSome_filter, filter_head_append hb, Option.isSome_filter]

/-- A blank ends an exponent as the end of the text does. -/
theorem Exponent.read?_append_blank (hb : isBlank b = true) (cs more : List Char) :
    read? (cs ++ b :: more) = read? cs := by
  cases cs with
  | nil =>
    have small : b ≠ 'e' := ne_of_blank hb rfl
    have large : b ≠ 'E' := ne_of_blank hb rfl
    simp [read?, small, large]
  | cons marker rest =>
    have plus : b ≠ '+' := ne_of_blank hb rfl
    have minus : b ≠ '-' := ne_of_blank hb rfl
    have sign : (rest ++ b :: more).head?.filter (fun c => c = '+' || c = '-') =
        rest.head?.filter fun c => c = '+' || c = '-' :=
      filter_head_append (by simp [plus, minus]) rest more
    have within : (rest.head?.filter fun c => c = '+' || c = '-').toList.length ≤ rest.length := by
      cases rest with
      | nil => simp
      | cons d ds =>
        rw [List.head?_cons, Option.filter_some]
        split <;> simp
    simp only [List.cons_append, read?, sign, List.drop_append_of_le_length within,
      takeWhile_append_of_head (not_digit_of_blank hb)]

theorem Numeral.read_append_blank (hb : isBlank b = true) (cs more : List Char) :
    read (cs ++ b :: more) = read cs := by
  have digit := not_digit_of_blank hb
  have within := (List.takeWhile_prefix (p := Char.isDigit) (l := cs)).length_le
  unfold read
  dsimp only
  rw [takeWhile_append_of_head digit, List.drop_append_of_le_length within]
  generalize cs.drop (cs.takeWhile Char.isDigit).length = rest
  cases rest with
  | nil =>
    have point : b ≠ '.' := ne_of_blank hb rfl
    have exponent := Exponent.read?_append_blank hb [] more
    simpa [point] using exponent
  | cons d ds =>
    by_cases hd : d = '.'
    · have within := (List.takeWhile_prefix (p := Char.isDigit) (l := ds)).length_le
      simp only [List.cons_append, List.head?_cons, hd, if_true, List.tail_cons]
      rw [takeWhile_append_of_head digit, List.drop_append_of_le_length within,
        Exponent.read?_append_blank hb]
    · have exponent := Exponent.read?_append_blank hb (d :: ds) more
      simpa [hd] using exponent

namespace Token

variable {found : List (Located Token)}

theorem imaginarySuffix_append_blank (hb : isBlank b = true) (cs more : List Char) :
    imaginarySuffix (cs ++ b :: more) = imaginarySuffix cs := by
  cases cs with
  | nil =>
    have small : b ≠ 'i' := ne_of_blank hb rfl
    have large : b ≠ 'I' := ne_of_blank hb rfl
    simp [imaginarySuffix, small, large]
  | cons u rest =>
    rw [List.cons_append, imaginarySuffix, imaginarySuffix,
      any_head_append (not_nameChar_of_blank hb)]

theorem lexNumber_append_blank (hb : isBlank b = true) (cs more : List Char) :
    lexNumber (cs ++ b :: more) = lexNumber cs := by
  have front := Numeral.toChars_read_prefix cs
  unfold lexNumber
  dsimp only
  rw [Numeral.read_append_blank hb, List.drop_append_of_le_length front.length_le,
    imaginarySuffix_append_blank hb]

theorem startsAt_append_blank (hb : isBlank b = true) (c : Char) (cs more : List Char) :
    Numeral.startsAt c (cs ++ b :: more) = Numeral.startsAt c cs := by
  rw [Numeral.startsAt, Numeral.startsAt, any_head_append (not_digit_of_blank hb)]

/-- No token and no fault reaches beyond a blank. -/
theorem lex_append_blank (hb : isBlank b = true) (c : Char) (cs more : List Char) :
    lex c (cs ++ b :: more) = lex c cs := by
  have star : (cs ++ b :: more).head? = some '*' ↔ cs.head? = some '*' := by
    have ne : b ≠ '*' := ne_of_blank hb rfl
    cases cs <;> simp [ne]
  unfold lex
  simp only [star, takeWhile_append_of_head (not_nameChar_of_blank hb), startsAt_append_blank hb]
  rw [← List.cons_append, lexNumber_append_blank hb]

/-- The scanner is done with a text when it comes to a blank behind it. -/
theorem scanFrom_append_blank (hb : isBlank b = true) (p : Nat) (found : List (Located Token))
    (cs more : List Char) :
    scanFrom p found (cs ++ b :: more) =
      scanFrom p found cs >>= fun ts => scanFrom (p + cs.length) ts.reverse (b :: more) := by
  fun_induction scanFrom p found cs with
  | case1 p found =>
    rw [List.nil_append, List.length_nil, Nat.add_zero]
    show _ = scanFrom p found.reverse.reverse (b :: more)
    rw [List.reverse_reverse]
  | case2 p found c rest blank ih =>
    rw [List.cons_append, scanFrom_blank blank, ih, List.length_cons, Nat.add_right_comm p 1,
      Nat.add_assoc]
  | case3 p found c rest visible cause lexed =>
    rw [List.cons_append, scanFrom_cons, if_neg visible, lex_append_blank hb, lexed]
    rfl
  | case4 p found c rest visible token extra lexed ih =>
    obtain ⟨word, tail, rfl, rfl, -⟩ := exists_takes lexed
    rw [List.drop_left] at ih
    rw [List.cons_append, scanFrom_cons, if_neg visible, lex_append_blank hb, lexed]
    dsimp only
    rw [List.append_assoc, List.drop_left, ih, List.drop_left]
    have place : p + 1 + word.length + tail.length = p + (c :: (word ++ tail)).length := by
      rw [List.length_cons, List.length_append]
      omega
    rw [place]

theorem scanFrom_blanks {w : List Char} (blank : ∀ c ∈ w, isBlank c = true) (p : Nat)
    (found : List (Located Token)) (cs : List Char) :
    scanFrom p found (w ++ cs) = scanFrom (p + w.length) found cs := by
  induction w generalizing p with
  | nil => rfl
  | cons c w ih =>
    obtain ⟨first, others⟩ := List.forall_mem_cons.mp blank
    rw [List.cons_append, scanFrom_blank first, ih others, List.length_cons, Nat.add_right_comm p 1,
      Nat.add_assoc]

/-- The scanner does not look at its position, nor at what it has found. -/
theorem scanFrom_shift (k : Nat) (before : List (Located Token)) (p : Nat)
    (found : List (Located Token)) (cs : List Char) :
    scanFrom (p + k) (found.map (Located.shift k) ++ before) cs =
      ((scanFrom p found cs).mapError (ReadError.shift k)).map fun ts =>
        before.reverse ++ ts.map (Located.shift k) := by
  fun_induction scanFrom p found cs with
  | case1 p found =>
    rw [scanFrom_nil, List.reverse_append, ← List.map_reverse]
    rfl
  | case2 p found c rest blank ih =>
    rw [scanFrom_blank blank, Nat.add_right_comm, ih]
  | case3 p found c rest visible cause lexed =>
    rw [scanFrom_cons, if_neg visible, lexed]
    rfl
  | case4 p found c rest visible token extra lexed ih =>
    rw [scanFrom_cons, if_neg visible, lexed]
    dsimp only
    rw [← ih, Nat.add_right_comm p k 1, Nat.add_right_comm (p + 1) k extra]
    rfl

theorem scanFrom_eq_scan (p : Nat) (found : List (Located Token)) (cs : List Char) :
    scanFrom p found cs = ((scan cs).mapError (ReadError.shift p)).map fun ts =>
      found.reverse ++ ts.map (Located.shift p) := by
  have shifted := scanFrom_shift p found 0 [] cs
  rwa [Nat.zero_add, List.map_nil, List.nil_append] at shifted

/-- Two texts with blanks between them are scanned one after the other, as if each stood alone. The
first fault is that of the first text, if there is one. -/
theorem scan_append_blanks {w : List Char} (blank : ∀ c ∈ w, isBlank c = true) (some : w ≠ [])
    (a b : List Char) :
    scan (a ++ w ++ b) = do
      let ts ← scan a
      let us ← (scan b).mapError (ReadError.shift (a ++ w).length)
      return ts ++ us.map (Located.shift (a ++ w).length) := by
  obtain ⟨c, gap, rfl⟩ := List.exists_cons_of_ne_nil some
  have first := (List.forall_mem_cons.mp blank).1
  rw [List.append_assoc, List.cons_append, scan, scanFrom_append_blank first]
  show (scan a >>= _) = _
  congr 1
  funext ts
  rw [← List.cons_append, scanFrom_blanks blank, scanFrom_eq_scan, List.reverse_reverse,
    List.length_append, Nat.zero_add]
  cases scan b <;> rfl

/-- With a space, `2e` and `5i` are no exponent, and two stars are no power; what is wrong with the
second text is then found at its place in the whole one. -/
theorem scan_append_blanks_exponent :
    scan ("2e".toList ++ [' '] ++ "5i".toList) =
      .ok [⟨.number 2, 0⟩, ⟨.name "e", 1⟩, ⟨.imaginary 5, 3⟩] ∧
    scan ("2*".toList ++ [' ', '\n'] ++ "*z$".toList) = .error ⟨6, .unexpectedCharacter '$'⟩ := by
  constructor
  · have blank : ∀ c ∈ [' '], isBlank c = true := List.all_eq_true.mp rfl
    have number : scan "2e".toList = .ok [⟨.number 2, 0⟩, ⟨.name "e", 1⟩] := by decide +kernel
    have unit : scan "5i".toList = .ok [⟨.imaginary 5, 0⟩] := by decide +kernel
    rw [scan_append_blanks blank (List.cons_ne_nil _ _), number, unit]
    rfl
  · have blank : ∀ c ∈ [' ', '\n'], isBlank c = true := List.all_eq_true.mp rfl
    have product : scan "2*".toList = .ok [⟨.number 2, 0⟩, ⟨.star, 1⟩] := by decide +kernel
    have refused : scan "*z$".toList = .error ⟨2, .unexpectedCharacter '$'⟩ := by decide +kernel
    rw [scan_append_blanks blank (List.cons_ne_nil _ _), product, refused]
    rfl

end Token
end Argand
