import Argand.Proofs.NumberText

namespace Argand

theorem append_prefix_of_drop {a b cs : List Char} (ha : a <+: cs) (hb : b <+: cs.drop a.length) :
    a ++ b <+: cs := by
  obtain ⟨rest, rfl⟩ := ha
  rw [List.drop_left] at hb
  exact (List.prefix_append_right_inj a).mpr hb

theorem Exponent.toChars_prefix {cs : List Char} {e : Exponent} (h : Exponent.read? cs = some e) :
    e.toChars <+: cs := by
  cases cs with
  | nil => cases h
  | cons marker rest =>
    simp only [read?] at h
    split at h
    next =>
      split at h
      next => cases h
      next =>
        cases h
        have sign : (rest.head?.filter fun c => c = '+' || c = '-').toList <+: rest := by
          cases rest with
          | nil => exact List.nil_prefix
          | cons c cs =>
            rw [List.head?_cons, Option.filter_some]
            split
            · exact ⟨cs, rfl⟩
            · exact List.nil_prefix
        exact (List.prefix_cons_inj marker).mpr
          (append_prefix_of_drop sign (List.takeWhile_prefix _))
    next => cases h

/-- A numeral is read from the front of the text. -/
theorem Numeral.toChars_read_prefix (cs : List Char) : (Numeral.read cs).toChars <+: cs := by
  have exponent (rest : List Char) :
      ((Exponent.read? rest).map Exponent.toChars).getD [] <+: rest := by
    cases read : Exponent.read? rest with
    | none => exact List.nil_prefix
    | some e => exact Exponent.toChars_prefix read
  unfold read toChars
  dsimp only
  rw [List.append_assoc]
  refine append_prefix_of_drop (List.takeWhile_prefix _) ?_
  generalize cs.drop (cs.takeWhile Char.isDigit).length = rest
  split
  next point =>
    obtain ⟨more, rfl⟩ := List.head?_eq_some_iff.mp point
    have fraction : '.' :: more.takeWhile Char.isDigit <+: '.' :: more :=
      (List.prefix_cons_inj '.').mpr (List.takeWhile_prefix _)
    exact append_prefix_of_drop fraction (exponent _)
  next => exact exponent rest

namespace Token

variable {cs whole : List Char} {p : Nat} {found ts : List (Located Token)} {e : ReadError}

/-- The scanner meets the rest of the text from the given position on, and this comes of it. -/
def LexesAt (whole : List Char) (p : Nat) (result : Except ReadError.Cause Lexeme) : Prop :=
  ∃ c rest, whole.drop p = c :: rest ∧ isBlank c = false ∧ lex c rest = result

theorem LexesAt.position_lt {result : Except ReadError.Cause Lexeme}
    (h : LexesAt whole p result) : p < whole.length := by
  obtain ⟨c, rest, hd, -⟩ := h
  by_contra hp
  rw [List.drop_eq_nil_of_le (Nat.not_lt.mp hp)] at hd
  cases hd

theorem drop_after {c : Char} {rest : List Char} (h : whole.drop p = c :: rest) (extra : Nat) :
    whole.drop (p + 1 + extra) = rest.drop extra := by
  rw [Nat.add_assoc, ← List.drop_drop, h, Nat.add_comm, List.drop_succ_cons]

/-- Every token that is found, and the character that is refused, is met by the scanner at its
position. -/
theorem scanFrom_lexes (found : List (Located Token)) (hp : whole.drop p = cs) :
    match scanFrom p found cs with
    | .error e => LexesAt whole e.position (.error e.cause)
    | .ok ts => ∀ t ∈ ts, t ∈ found ∨ ∃ extra, LexesAt whole t.position (.ok (t.value, extra)) := by
  fun_induction scanFrom p found cs with
  | case1 p found => exact fun t ht => Or.inl (List.mem_reverse.mp ht)
  | case2 p found c rest blank ih => exact ih (drop_after hp 0)
  | case3 p found c rest visible cause lexed =>
    exact ⟨c, rest, hp, Bool.eq_false_iff.mpr visible, lexed⟩
  | case4 p found c rest visible token extra lexed ih =>
    have later := ih (drop_after hp extra)
    split at later
    next => exact later
    next ts _ =>
      intro t ht
      rcases later t ht with new | old
      · rcases List.mem_cons.mp new with rfl | older
        · exact Or.inr ⟨extra, c, rest, hp, Bool.eq_false_iff.mpr visible, lexed⟩
        · exact Or.inl older
      · exact Or.inr old

theorem lexesAt_of_scan (h : scan whole = .ok ts) {t : Located Token} (ht : t ∈ ts) :
    ∃ extra, LexesAt whole t.position (.ok (t.value, extra)) := by
  have lexed := scanFrom_lexes [] (List.drop_zero (l := whole))
  rw [scan] at h
  rw [h] at lexed
  exact (lexed t ht).resolve_left List.not_mem_nil

theorem lexesAt_of_scan_error (h : scan whole = .error e) :
    LexesAt whole e.position (.error e.cause) := by
  have lexed := scanFrom_lexes [] (List.drop_zero (l := whole))
  rw [scan] at h
  rwa [h] at lexed

theorem subset_of_scanFrom (h : scanFrom p found cs = .ok ts) : found ⊆ ts := by
  fun_induction scanFrom p found cs with
  | case1 p found =>
    cases h
    exact fun t ht => List.mem_reverse.mpr ht
  | case2 p found c rest blank ih => exact ih h
  | case3 => cases h
  | case4 p found c rest visible token extra lexed ih =>
    exact fun t ht => ih h (List.mem_cons_of_mem _ ht)

/-- Only of blanks nothing is found. -/
theorem blank_of_scanFrom (h : scanFrom p found cs = .ok []) : ∀ c ∈ cs, isBlank c = true := by
  fun_induction scanFrom p found cs with
  | case1 => exact nofun
  | case2 p found c rest blank ih => exact List.forall_mem_cons.mpr ⟨blank, ih h⟩
  | case3 => cases h
  | case4 p found c rest visible token extra lexed ih =>
    have kept := subset_of_scanFrom h List.mem_cons_self
    exact absurd kept List.not_mem_nil

/-- A character is refused if nothing starts with it, and a numeral if it is beyond all numbers. -/
theorem lex_error {c : Char} {rest : List Char} {cause : ReadError.Cause}
    (h : lex c rest = .error cause) : cause = .unexpectedCharacter c ∨
      ∃ text : String, cause = .invalidNumber text ∧ text.toList <+: c :: rest := by
  cases lexes_of_lex h with
  | number _ lexed =>
    cases lexesNumber_of_lexNumber lexed with
    | refused =>
      refine Or.inr ⟨_, rfl, ?_⟩
      rw [String.toList_ofList]
      exact Numeral.toChars_read_prefix _
  | refused => exact Or.inl rfl

end Token
end Argand
