import Argand.Proofs.TokenText

namespace Argand

theorem Exponent.wellFormed_of_read? {cs : List Char} {e : Exponent} (h : read? cs = some e) :
    e.WellFormed := by
  cases cs with
  | nil => cases h
  | cons marker rest =>
    simp only [read?] at h
    split at h
    next marked =>
      split at h
      next => cases h
      next full =>
        cases h
        refine ⟨by simpa using marked, fun c hc => ?_, ?_, fun c hc => List.mem_takeWhile_imp hc⟩
        · simpa using (Option.filter_eq_some_iff.mp hc).2
        · exact List.isEmpty_eq_false_iff.mp (Bool.eq_false_iff.mpr full)
    next => cases h

namespace Numeral

theorem wellFormed_read (cs : List Char) : (read cs).WellFormed := by
  refine ⟨fun c hc => List.mem_takeWhile_imp hc, fun ds hds c hc => ?_, fun e he =>
    Exponent.wellFormed_of_read? he⟩
  unfold read at hds
  dsimp only at hds
  split at hds
  next =>
    obtain rfl := Option.some.inj hds
    exact List.mem_takeWhile_imp hc
  next => cases hds

theorem WellFormed.not_blank {n : Numeral} (h : n.WellFormed) :
    ∀ c ∈ n.toChars, isBlank c = false := by
  intro c hc
  rcases List.mem_append.mp hc with hc | hc
  · rcases List.mem_append.mp hc with hc | hc
    · exact Token.not_blank_digit (h.whole c hc)
    · cases hf : n.fraction with
      | none => simp [hf] at hc
      | some ds =>
        rw [hf] at hc
        rcases List.mem_cons.mp hc with rfl | hc
        · rfl
        · exact Token.not_blank_digit (h.fraction ds hf c hc)
  · cases he : n.exponent with
    | none => simp [he] at hc
    | some e =>
      have formed := h.exponent e he
      rw [he] at hc
      rcases List.mem_cons.mp hc with rfl | hc
      · rcases formed.marker with m | m <;> rw [m] <;> rfl
      · rcases List.mem_append.mp hc with hc | hc
        · rcases formed.sign c (by simpa using hc) with rfl | rfl <;> rfl
        · exact Token.not_blank_digit (formed.digits c hc)

/-- A numeral is read from where it starts, and it starts its own characters. -/
theorem exists_toChars_read {c : Char} {rest : List Char} (h : startsAt c rest = true) :
    ∃ tail, (read (c :: rest)).toChars = c :: tail ∧ startsAt c tail = true := by
  rcases Bool.or_eq_true_iff.mp h with digit | point
  · have whole : (read (c :: rest)).whole = c :: rest.takeWhile Char.isDigit :=
      List.takeWhile_cons_of_pos digit
    refine ⟨_, by rw [toChars, whole]; rfl, ?_⟩
    simp [startsAt, digit]
  · obtain ⟨point, next⟩ := Bool.and_eq_true_iff.mp point
    obtain rfl := eq_of_beq point
    cases rest with
    | nil => cases next
    | cons d ds =>
      have digit : d.isDigit = true := next
      have whole : (read ('.' :: d :: ds)).whole = [] := rfl
      have fraction : (read ('.' :: d :: ds)).fraction = some (d :: ds.takeWhile Char.isDigit) :=
        congrArg some (List.takeWhile_cons_of_pos digit)
      refine ⟨_, by rw [toChars, whole, fraction]; rfl, ?_⟩
      simp [startsAt, digit]

end Numeral

namespace Token

variable {c : Char} {rest : List Char} {t : Token} {extra : Nat}

/-- The token takes these characters after the first one, none of them blank, and it is the same
when nothing follows them. -/
structure Takes (c : Char) (t : Token) (word : List Char) : Prop where
  lex : Token.lex c word = .ok (t, word.length)
  visible : ∀ d ∈ word, isBlank d = false

theorem takes_symbol (h : symbol? c = some t) : Takes c t [] := by
  refine ⟨?_, nofun⟩
  simp [Token.lex, h]

theorem takes_star : Takes '*' star [] := ⟨rfl, nofun⟩

theorem takes_doubled_star : Takes '*' caret ['*'] := ⟨rfl, by simp [isBlank]⟩

theorem not_blank_nameChar (h : isNameChar c = true) : isBlank c = false := by
  rcases Bool.or_eq_true_iff.mp h with alphanumeric | line
  · rcases Bool.or_eq_true_iff.mp alphanumeric with letter | digit
    · exact not_blank_beginsWord (Bool.or_eq_true_iff.mpr (Or.inl letter))
    · exact not_blank_digit digit
  · exact not_blank_beginsWord (Bool.or_eq_true_iff.mpr (Or.inr line))

theorem takes_word (hc : (c.isAlpha || c == '_') = true) (rest : List Char) :
    Takes c (ofWord (c :: rest.takeWhile isNameChar)) (rest.takeWhile isNameChar) := by
  have chars : ∀ d ∈ rest.takeWhile isNameChar, isNameChar d = true :=
    fun d hd => List.mem_takeWhile_imp hd
  refine ⟨?_, fun d hd => not_blank_nameChar (chars d hd)⟩
  have lexed := lex_word hc chars (rfl : [].head?.any isNameChar = false)
  rwa [List.append_nil] at lexed

theorem exists_of_imaginarySuffix {cs : List Char} (h : imaginarySuffix cs = true) :
    ∃ u more, cs = u :: more ∧ EndsNumeral [u] ∧ imaginarySuffix [u] = true ∧
      isBlank u = false := by
  cases cs with
  | nil => cases h
  | cons u more =>
    have unit : u = 'i' ∨ u = 'I' := by simpa using (Bool.and_eq_true_iff.mp h).1
    refine ⟨u, more, rfl, fun d hd => ?_, ?_, ?_⟩
    · obtain rfl : u = d := by simpa using hd
      rcases unit with rfl | rfl <;> decide
    · rcases unit with rfl | rfl <;> rfl
    · rcases unit with rfl | rfl <;> rfl

theorem startsAt_append {tail : List Char} (h : Numeral.startsAt c tail = true)
    (more : List Char) : Numeral.startsAt c (tail ++ more) = true := by
  cases tail with
  | nil =>
    have digit : c.isDigit = true := by simpa [Numeral.startsAt] using h
    simp [Numeral.startsAt, digit]
  | cons d ds => exact h

/-- A number takes the characters of its numeral, and the unit that makes it imaginary. -/
theorem exists_takes_number (hs : Numeral.startsAt c rest = true)
    (h : lexNumber (c :: rest) = .ok (t, extra)) :
    ∃ word more, rest = word ++ more ∧ extra = word.length ∧ Numeral.startsAt c word = true ∧
      lexNumber (c :: word) = .ok (t, word.length) ∧ ∀ d ∈ word, isBlank d = false := by
  obtain ⟨tail, chars, starts⟩ := Numeral.exists_toChars_read hs
  have formed := Numeral.wellFormed_read (c :: rest)
  obtain ⟨more, eq⟩ := Numeral.toChars_read_prefix (c :: rest)
  have after := congrArg (List.drop (Numeral.read (c :: rest)).toChars.length) eq
  rw [List.drop_left] at after
  have visible : ∀ d ∈ tail, isBlank d = false :=
    fun d hd => formed.not_blank d (chars ▸ List.mem_cons_of_mem c hd)
  have split : rest = tail ++ more := by
    rw [chars, List.cons_append, List.cons.injEq] at eq
    exact eq.2.symm
  cases lexesNumber_of_lexNumber h with
  | imaginary finite suffix =>
    rw [← after] at suffix
    obtain ⟨u, more, rfl, ends, unit, notBlank⟩ := exists_of_imaginarySuffix suffix
    have lexed := lexNumber_toChars formed finite ends
    rw [unit, if_pos rfl, chars] at lexed
    exact ⟨tail ++ [u], more, by simpa using split, by simp [chars], startsAt_append starts [u],
      by simpa using lexed, List.forall_mem_append.mpr ⟨visible, by simpa using notBlank⟩⟩
  | number finite =>
    have lexed := lexNumber_toChars formed finite (nofun : EndsNumeral [])
    rw [List.append_nil, chars] at lexed
    exact ⟨tail, more, split, by rw [chars]; rfl, starts, lexed, visible⟩

/-- What follows the characters of a token has no part in it. -/
theorem exists_takes (h : Token.lex c rest = .ok (t, extra)) :
    ∃ word more, rest = word ++ more ∧ extra = word.length ∧ Takes c t word := by
  cases lexes_of_lex h with
  | symbol found => exact ⟨[], rest, rfl, rfl, takes_symbol found⟩
  | power isStar double =>
    subst isStar
    obtain ⟨more, rfl⟩ := List.head?_eq_some_iff.mp double
    exact ⟨['*'], more, rfl, rfl, takes_doubled_star⟩
  | star isStar =>
    subst isStar
    exact ⟨[], rest, rfl, rfl, takes_star⟩
  | word letter =>
    exact ⟨_, _, List.takeWhile_append_dropWhile.symm, rfl, takes_word letter rest⟩
  | number starts lexed =>
    obtain ⟨word, more, split, length, starts, lexed, visible⟩ := exists_takes_number starts lexed
    exact ⟨word, more, split, length, (lex_of_startsAt starts).trans lexed, visible⟩

/-- The characters are those of this token and of nothing else. -/
structure IsLexeme (t : Token) (cs : List Char) : Prop where
  nonempty : cs ≠ []
  visible : ∀ c ∈ cs, isBlank c = false
  scan : Token.scan cs = .ok [⟨t, 0⟩]

theorem Takes.isLexeme {word : List Char} (h : Takes c t word) (hc : isBlank c = false) :
    IsLexeme t (c :: word) where
  nonempty := List.cons_ne_nil c word
  visible := List.forall_mem_cons.mpr ⟨hc, h.visible⟩
  scan := by
    have lexed : Token.lex c (word ++ []) = .ok (t, word.length) := by simpa using h.lex
    have scanned := scanFrom_of_lex word hc lexed 0 []
    rwa [List.append_nil, scanFrom_nil] at scanned

end Token
end Argand
