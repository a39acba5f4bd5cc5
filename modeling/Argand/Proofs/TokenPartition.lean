import Argand.Proofs.Lexemes
import Mathlib.Data.List.DropRight

namespace Argand.Token

variable {c : Char} {rest whole : List Char} {p : Nat} {t : Token} {found ts : List (Located Token)}

/-- From the given position on, the text consists of the lexemes of the tokens, with blanks before,
between and behind them. -/
inductive Tiles : Nat → List (Located Token) → List Char → Prop
  | blank {p : Nat} {cs : List Char} (h : ∀ c ∈ cs, isBlank c = true) : Tiles p [] cs
  | token {p : Nat} {gap lexeme rest : List Char} {t : Token} {ts : List (Located Token)}
      (hg : ∀ c ∈ gap, isBlank c = true) (hl : IsLexeme t lexeme)
      (h : Tiles (p + gap.length + lexeme.length) ts rest) :
      Tiles p (⟨t, p + gap.length⟩ :: ts) (gap ++ (lexeme ++ rest))

theorem Tiles.cons (hc : isBlank c = true) (h : Tiles (p + 1) ts rest) : Tiles p ts (c :: rest) := by
  cases h with
  | blank h => exact .blank (List.forall_mem_cons.mpr ⟨hc, h⟩)
  | @token _ gap lexeme rest t ts hg hl h =>
    have place : p + 1 + gap.length = p + (c :: gap).length := by
      rw [List.length_cons]
      omega
    rw [place] at h ⊢
    exact .token (List.forall_mem_cons.mpr ⟨hc, hg⟩) hl h

theorem tiles_of_scanFrom {cs : List Char} (h : scanFrom p found cs = .ok ts) :
    ∃ us, ts = found.reverse ++ us ∧ Tiles p us cs := by
  fun_induction scanFrom p found cs with
  | case1 p found =>
    cases h
    exact ⟨[], by simp, .blank (List.forall_mem_nil _)⟩
  | case2 p found c rest blank ih =>
    obtain ⟨us, eq, tiles⟩ := ih h
    exact ⟨us, eq, tiles.cons blank⟩
  | case3 => cases h
  | case4 p found c rest visible token extra lexed ih =>
    obtain ⟨us, eq, tiles⟩ := ih h
    obtain ⟨word, more, rfl, rfl, takes⟩ := exists_takes lexed
    refine ⟨⟨token, p⟩ :: us, by simp [eq], ?_⟩
    rw [List.drop_left, Nat.add_assoc, Nat.add_comm 1] at tiles
    have empty : ∀ c ∈ ([] : List Char), isBlank c = true := List.forall_mem_nil _
    exact .token empty (takes.isLexeme (Bool.eq_false_iff.mpr visible)) tiles

/-- Where the next token begins, or the end of the text. -/
def nextPosition (ts : List (Located Token)) (length : Nat) : Nat :=
  (ts.head?.map (·.position)).getD length

/-- The characters from a token on up to the next one, without the blanks at the end. -/
def slice (whole : List Char) (ts : List (Located Token)) (k : Nat) : List Char :=
  (whole.extract (nextPosition (ts.drop k) whole.length)
    (nextPosition (ts.drop (k + 1)) whole.length)).rdropWhile isBlank

theorem Tiles.gap {cs : List Char} (h : Tiles p ts cs) :
    ∃ gap more, cs = gap ++ more ∧ (∀ c ∈ gap, isBlank c = true) ∧
      nextPosition ts (p + cs.length) = p + gap.length := by
  cases h with
  | blank h => exact ⟨cs, [], by simp, h, rfl⟩
  | token hg => exact ⟨_, _, rfl, hg, rfl⟩

theorem IsLexeme.rdropWhile_append {lexeme gap : List Char} (h : IsLexeme t lexeme)
    (hg : ∀ c ∈ gap, isBlank c = true) : (lexeme ++ gap).rdropWhile isBlank = lexeme := by
  have visible : lexeme.rdropWhile isBlank = lexeme :=
    List.rdropWhile_eq_self_iff.mpr fun ne => by simp [h.visible _ (List.getLast_mem ne)]
  have blank : ∀ c ∈ gap.reverse, isBlank c = true := fun c hc => hg c (List.mem_reverse.mp hc)
  rw [List.rdropWhile, List.reverse_append, List.dropWhile_append_of_pos blank]
  exact visible

theorem extract_append (front cs more : List Char) :
    (front ++ (cs ++ more)).extract front.length (front.length + cs.length) = cs := by
  simp [List.extract_eq_take_drop]

theorem Tiles.slice_zero {gap lexeme rest front : List Char} {u : Token} (hl : IsLexeme u lexeme)
    (h : Tiles (front.length + gap.length + lexeme.length) ts rest) :
    slice (front ++ (gap ++ (lexeme ++ rest))) (⟨u, front.length + gap.length⟩ :: ts) 0 =
      lexeme := by
  obtain ⟨gap', more, rfl, hg, next⟩ := h.gap
  have whole : front ++ (gap ++ (lexeme ++ (gap' ++ more))) =
      front ++ gap ++ ((lexeme ++ gap') ++ more) := by simp
  have start : nextPosition (⟨u, front.length + gap.length⟩ :: ts)
      (front ++ gap ++ ((lexeme ++ gap') ++ more)).length = (front ++ gap).length := by
    simp [nextPosition]
  have stop : nextPosition ts (front ++ gap ++ ((lexeme ++ gap') ++ more)).length =
      (front ++ gap).length + (lexeme ++ gap').length := by
    simp only [List.length_append, Nat.add_assoc] at next ⊢
    exact next
  rw [slice, whole, List.drop_zero, List.drop_succ_cons, List.drop_zero, start, stop,
    extract_append, hl.rdropWhile_append hg]

/-- The slice of every token is its lexeme. -/
theorem Tiles.isLexeme_slice {cs front : List Char} (h : Tiles p ts cs) (hp : front.length = p)
    {k : Nat} {t : Located Token} (ht : ts[k]? = some t) :
    IsLexeme t.value (slice (front ++ cs) ts k) := by
  induction h generalizing front k with
  | blank => cases ht
  | @token p gap lexeme rest u ts hg hl h ih =>
    subst hp
    cases k with
    | zero =>
      cases ht
      rw [h.slice_zero hl]
      exact hl
    | succ k =>
      have place : (front ++ (gap ++ lexeme)).length =
          front.length + gap.length + lexeme.length := by simp [Nat.add_assoc]
      simpa [slice] using ih place ht

/-- A character that is not blank belongs to the slice of a token. -/
theorem Tiles.exists_slice {cs front : List Char} (h : Tiles p ts cs) (hp : front.length = p)
    {i : Nat} {c : Char} (hi : cs[i]? = some c) (hc : isBlank c = false) :
    ∃ k t, ts[k]? = some t ∧ t.position ≤ p + i ∧
      p + i < t.position + (slice (front ++ cs) ts k).length := by
  induction h generalizing front i with
  | blank h => exact absurd (h c (List.mem_of_getElem? hi)) (by simp [hc])
  | @token p gap lexeme rest u ts hg hl h ih =>
    subst hp
    by_cases early : i < gap.length
    · rw [List.getElem?_append_left early] at hi
      exact absurd (hg c (List.mem_of_getElem? hi)) (by simp [hc])
    · rw [List.getElem?_append_right (by omega)] at hi
      by_cases inside : i - gap.length < lexeme.length
      · refine ⟨0, _, rfl, by dsimp only; omega, ?_⟩
        rw [h.slice_zero hl]
        dsimp only
        omega
      · rw [List.getElem?_append_right (by omega)] at hi
        have place : (front ++ (gap ++ lexeme)).length =
            front.length + gap.length + lexeme.length := by simp [Nat.add_assoc]
        obtain ⟨k, t, ht, lower, upper⟩ := ih place hi
        refine ⟨k + 1, t, ht, by omega, ?_⟩
        have later : slice (front ++ (gap ++ (lexeme ++ rest)))
            (⟨u, front.length + gap.length⟩ :: ts) (k + 1) =
            slice (front ++ (gap ++ lexeme) ++ rest) ts k := by simp [slice]
        rw [later]
        omega

theorem Tiles.position {cs : List Char} (h : Tiles p ts cs) :
    ts.Pairwise (·.position < ·.position) ∧
      ∀ t ∈ ts, p ≤ t.position ∧ t.position < p + cs.length := by
  induction h with
  | blank => exact ⟨.nil, nofun⟩
  | @token p gap lexeme rest u ts hg hl h ih =>
    obtain ⟨increasing, inside⟩ := ih
    have pos := List.length_pos_iff.mpr hl.nonempty
    refine ⟨List.pairwise_cons.mpr ⟨fun t ht => ?_, increasing⟩,
      List.forall_mem_cons.mpr ⟨?_, fun t ht => ?_⟩⟩
    · have := inside t ht
      dsimp only
      omega
    · simp only [List.length_append]
      omega
    · have := inside t ht
      simp only [List.length_append]
      omega

/-- The tokens stand in the text one after the other, each with its own characters. -/
structure Partitions (ts : List (Located Token)) (whole : List Char) : Prop where
  increasing : ts.Pairwise (·.position < ·.position)
  inside : ∀ t ∈ ts, t.position < whole.length
  front : ∀ c ∈ whole.take (nextPosition ts whole.length), isBlank c = true
  lexeme : ∀ k t, ts[k]? = some t → IsLexeme t.value (slice whole ts k)
  /-- No character is skipped unless it is blank, and none belongs to two tokens. -/
  unique : ∀ i c, whole[i]? = some c → isBlank c = false →
    ∃! k, ∃ t, ts[k]? = some t ∧ t.position ≤ i ∧ i < t.position + (slice whole ts k).length

theorem nextPosition_drop {k length : Nat} {t : Located Token} (ht : ts[k]? = some t) :
    nextPosition (ts.drop k) length = t.position := by
  rw [nextPosition, List.head?_drop, ht]
  rfl

theorem length_slice_le (ts : List (Located Token)) (whole : List Char) (k : Nat) :
    (slice whole ts k).length ≤ nextPosition (ts.drop (k + 1)) whole.length -
      nextPosition (ts.drop k) whole.length := by
  refine (List.rdropWhile_prefix _ _).length_le.trans ?_
  rw [List.extract_eq_take_drop]
  exact List.length_take_le _ _

/-- A slice ends before the next token begins. -/
theorem slice_before (whole : List Char) {j k : Nat} {t u : Located Token}
    (increasing : ts.Pairwise (·.position < ·.position)) (ht : ts[j]? = some t)
    (hu : ts[k]? = some u) (h : j < k) :
    t.position + (slice whole ts j).length ≤ u.position := by
  obtain ⟨hk, rfl⟩ := List.getElem?_eq_some_iff.mp hu
  have next : ts[j + 1]? = some ts[j + 1] := List.getElem?_eq_getElem (by omega)
  have bound := length_slice_le ts whole j
  rw [nextPosition_drop ht, nextPosition_drop next] at bound
  have first := List.pairwise_iff_getElem.mp increasing j (j + 1) (by omega) (by omega) (by omega)
  rw [(List.getElem?_eq_some_iff.mp ht).2] at first
  have later : ts[j + 1].position ≤ ts[k].position := by
    rcases Nat.lt_or_eq_of_le h with lt | eq
    · exact (List.pairwise_iff_getElem.mp increasing (j + 1) k (by omega) hk lt).le
    · simp only [Nat.succ_eq_add_one] at eq
      simp only [eq, le_refl]
  omega

/-- The scanner partitions the text among the tokens. -/
theorem scan_partitions (h : scan whole = .ok ts) : Partitions ts whole := by
  obtain ⟨us, rfl, tiles⟩ := tiles_of_scanFrom h
  obtain ⟨increasing, inside⟩ := tiles.position
  refine ⟨increasing, fun t ht => by simpa using (inside t ht).2, ?_,
    fun k t ht => tiles.isLexeme_slice List.length_nil ht, fun i c hi hc => ?_⟩
  · obtain ⟨gap, more, eq, blank, next⟩ := tiles.gap
    rw [Nat.zero_add, Nat.zero_add] at next
    rw [next, eq, List.take_left]
    exact blank
  · obtain ⟨k, t, ht, lower, upper⟩ := tiles.exists_slice List.length_nil hi hc
    rw [Nat.zero_add] at lower upper
    refine ⟨k, ⟨t, ht, lower, upper⟩, ?_⟩
    rintro j ⟨u, hu, lower', upper'⟩
    rcases Nat.lt_trichotomy j k with before | same | after
    · have := slice_before whole increasing hu ht before
      omega
    · exact same
    · have := slice_before whole increasing ht hu after
      rw [List.nil_append] at upper
      omega

/-- An exponent without a digit is a word of its own, and a unit is part of a longer word. -/
theorem scan_partitions_adjacent :
    scan " 2e*3in **5.i ".toList = .ok [⟨.number 2, 1⟩, ⟨.name "e", 2⟩, ⟨.star, 3⟩, ⟨.number 3, 4⟩,
      ⟨.name "in", 5⟩, ⟨.caret, 8⟩, ⟨.imaginary 5, 10⟩] ∧
    Partitions [⟨.number 2, 1⟩, ⟨.name "e", 2⟩, ⟨.star, 3⟩, ⟨.number 3, 4⟩, ⟨.name "in", 5⟩,
      ⟨.caret, 8⟩, ⟨.imaginary 5, 10⟩] " 2e*3in **5.i ".toList := by
  have scanned : scan " 2e*3in **5.i ".toList = .ok [⟨.number 2, 1⟩, ⟨.name "e", 2⟩, ⟨.star, 3⟩,
      ⟨.number 3, 4⟩, ⟨.name "in", 5⟩, ⟨.caret, 8⟩, ⟨.imaginary 5, 10⟩] := by decide +kernel
  exact ⟨scanned, scan_partitions scanned⟩

end Argand.Token
