import Argand.Proofs.LetterCase
import Argand.Proofs.Relocation
import Argand.Proofs.RoundTrip
import Argand.Proofs.TokenPlaces

namespace Argand

namespace Token

variable {rest : List Char} {t : Token} {ts : List (Located Token)}

/-- Where a delimiter or nothing follows it, the text of the token is scanned as the token. -/
def Rereads (t : Token) : Prop :=
  ∀ rest, Delimited rest → ∀ p found, ∃ q,
    scanFrom p found (t.text.toList ++ rest) = scanFrom q (⟨t, p⟩ :: found) rest

theorem ofWord_map_toLower (word : List Char) : ofWord (word.map Char.toLower) = ofWord word := by
  have twice : (word.map Char.toLower).map Char.toLower = word.map Char.toLower := by simp
  simp only [ofWord, twice]

/-- A word is kept in lower case, and so it is the same word when it is scanned again. -/
theorem rereads_ofWord {c : Char} {cs : List Char} (hc : (c.isAlpha || c == '_') = true)
    (h : ∀ d ∈ cs, isNameChar d = true) : (ofWord (c :: cs)).Rereads := by
  intro rest hr p found
  by_cases unit : (c :: cs).map Char.toLower = ['i']
  · rw [ofWord, if_pos unit]
    exact scanFrom_imaginary plain_one hr p found
  · have again : ofWord (c.toLower :: cs.map Char.toLower) = ofWord (c :: cs) :=
      ofWord_map_toLower (c :: cs)
    have chars : ∀ d ∈ cs.map Char.toLower, isNameChar d = true := by
      intro d hd
      obtain ⟨b, hb, rfl⟩ := List.mem_map.mp hd
      exact (isNameChar_toLower b).trans (h b hb)
    have begins : (c.toLower.isAlpha || c.toLower == '_') = true := (beginsWord_toLower c).trans hc
    have lexed := lex_word begins chars hr.not_nameChar
    rw [again, ofWord, if_neg unit] at lexed
    rw [ofWord, if_neg unit, text, String.toList_ofList]
    exact ⟨_, scanFrom_of_lex _ (not_blank_beginsWord begins) lexed p found⟩

theorem rereads_pi : (name "pi").Rereads := by
  have reads : (ofWord ['p', 'i']).Rereads := rereads_ofWord rfl (List.all_eq_true.mp rfl)
  exact reads

theorem rereads_sqrt : (name "sqrt").Rereads := by
  have reads : (ofWord ['s', 'q', 'r', 't']).Rereads := rereads_ofWord rfl (List.all_eq_true.mp rfl)
  exact reads

theorem rereads_symbol {c : Char} (h : symbol? c = some t) : t.Rereads := by
  unfold symbol? at h
  split at h <;> cases h
  case h_8 => exact rereads_pi
  case h_9 => exact rereads_sqrt
  all_goals exact fun rest _ p found => ⟨_, scanFrom_char rfl rfl p found⟩

theorem rereads_caret : caret.Rereads :=
  rereads_symbol (c := '^') rfl

theorem rereads_star : star.Rereads := by
  intro rest hr p found
  have single : rest.head? ≠ some '*' := by
    cases rest with
    | nil => simp
    | cons c cs => rcases hr with rfl | rfl | rfl <;> simp
  have lexed : lex '*' rest = .ok (star, 0) := by simp [lex, symbol?, single]
  exact ⟨_, scanFrom_char rfl lexed p found⟩

theorem rereads_lexNumber {cs : List Char} {extra : Nat} (h : lexNumber cs = .ok (t, extra)) :
    t.Rereads := by
  intro rest hr p found
  have plain := plain_lexNumber h
  cases lexesNumber_of_lexNumber h with
  | imaginary => exact scanFrom_imaginary plain hr p found
  | number => exact scanFrom_number plain hr p found

theorem rereads_of_lex {c : Char} {cs : List Char} {extra : Nat}
    (h : lex c cs = .ok (t, extra)) : t.Rereads := by
  cases lexes_of_lex h with
  | symbol found => exact rereads_symbol found
  | power => exact rereads_caret
  | star => exact rereads_star
  | word letter => exact rereads_ofWord letter fun d hd => List.mem_takeWhile_imp hd
  | number _ lexed => exact rereads_lexNumber lexed

theorem rereads_of_scan {cs : List Char} (h : scan cs = .ok ts) : ∀ t ∈ ts, t.value.Rereads := by
  intro t ht
  obtain ⟨_, c, rest, -, -, lexed⟩ := lexesAt_of_scan h ht
  exact rereads_of_lex lexed

/-- The space between two tokens keeps them apart. -/
theorem scanFrom_listText (tokens : List Token) (h : ∀ t ∈ tokens, t.Rereads) (p : Nat)
    (found : List (Located Token)) : ∃ us, us.map (·.value) = tokens ∧
      scanFrom p found (listText tokens).toList = .ok (found.reverse ++ us) := by
  induction tokens generalizing p found with
  | nil =>
    refine ⟨[], rfl, ?_⟩
    rw [List.append_nil]
    exact scanFrom_nil p found
  | cons t more ih =>
    obtain ⟨first, others⟩ := List.forall_mem_cons.mp h
    cases more with
    | nil =>
      obtain ⟨q, hq⟩ := first [] trivial p found
      refine ⟨[⟨t, p⟩], rfl, ?_⟩
      rw [List.append_nil, scanFrom_nil, List.reverse_cons] at hq
      rw [← hq]
      simp [listText]
    | cons u more =>
      have spaced : (listText (t :: u :: more)).toList =
          t.text.toList ++ ' ' :: (listText (u :: more)).toList := by
        simp [listText, String.intercalate_cons_cons]
      obtain ⟨q, hq⟩ := first (' ' :: (listText (u :: more)).toList) (Or.inr (Or.inl rfl)) p found
      obtain ⟨us, values, hus⟩ := ih others (q + 1) (⟨t, p⟩ :: found)
      refine ⟨⟨t, p⟩ :: us, by simp [values], ?_⟩
      rw [spaced, hq, scanFrom_blank rfl, hus]
      simp

theorem scan_listText {cs : List Char} (h : scan cs = .ok ts) :
    ∃ us, us.map (·.value) = ts.map (·.value) ∧
      scan (listText (ts.map (·.value))).toList = .ok us := by
  refine scanFrom_listText _ (fun t ht => ?_) 0 []
  obtain ⟨u, hu, rfl⟩ := List.mem_map.mp ht
  exact rereads_of_scan h u hu

end Token

namespace Formula

variable {source v : String} {s : Stages}

/-- The text of the tokens goes through the same stages, at other places. -/
theorem stages_listText (h : stages source v = .ok s) :
    ∃ u, stages (Token.listText (s.tokens.map (·.value))) v = .ok u ∧
      u.tree = s.tree ∧ u.explanation = s.explanation := by
  obtain ⟨scanned, read, built⟩ := stages_eq_ok_iff.mp h
  obtain ⟨tokens, sameTokens, scanned'⟩ := Token.scan_listText scanned
  obtain ⟨items, read', sameItems⟩ := Postfix.read_relocated read sameTokens
    (Token.listText (s.tokens.map (·.value))).length
  have built' : Expr.ofPostfix items = .ok s.tree := by
    obtain ⟨listing, saturated, deep, long⟩ := Expr.ofPostfix_eq_ok.mp built
    have len := congrArg List.length sameItems
    rw [List.length_map, List.length_map] at len
    exact Expr.ofPostfix_eq_ok.mpr ⟨sameItems.trans listing, saturated, deep, len ▸ long⟩
  refine ⟨⟨tokens, items, s.tree⟩, stages_eq_ok_iff.mpr ⟨scanned', read', built'⟩, rfl, ?_⟩
  simp only [Stages.explanation, sameTokens, sameItems]

/-- The list of tokens that is shown is a source of its own: it has the same tokens, and if the
source compiles, so does the list, with the same tree and the same explanation. -/
theorem tokens_reread (source : String) :
    (∀ ts, Token.scan source.toList = .ok ts →
      (Token.scan (Token.listText (ts.map (·.value))).toList).map (·.map (·.value)) =
        .ok (ts.map (·.value))) ∧
    ∀ x d, compile source = .ok (x, d) → compile d.tokens = .ok (x, d) := by
  refine ⟨fun ts scanned => ?_, fun x d compiled => ?_⟩
  · obtain ⟨us, same, scanned'⟩ := Token.scan_listText scanned
    rw [scanned', ← same]
    rfl
  · unfold compile at compiled
    cases staged : stages source variableName with
    | error e =>
      rw [staged] at compiled
      cases compiled
    | ok s =>
      rw [staged] at compiled
      cases compiled
      obtain ⟨u, staged', tree, explanation⟩ := stages_listText staged
      have again : compile s.explanation.tokens = .ok (u.tree, u.explanation) :=
        congrArg (Except.map fun s : Stages => (s.tree, s.explanation)) staged'
      rw [again, tree, explanation]

/-- The capital unit, the doubled star and the root sign are shown in the spelling of the list. -/
theorem tokens_reread_power :
    (Token.scan "1i ^ sqrt ( z )".toList).map (·.map (·.value)) =
      .ok [.imaginary 1.0, .caret, .name "sqrt", .leftParen, .name "z", .rightParen] ∧
    ∃ x d, compile "I**√(Z)" = .ok (x, d) ∧ d.tokens = "1i ^ sqrt ( z )" ∧
      compile "1i ^ sqrt ( z )" = .ok (x, d) := by
  have scanned : Token.scan "I**√(Z)".toList = .ok [⟨.imaginary 1.0, 0⟩, ⟨.caret, 1⟩,
      ⟨.name "sqrt", 3⟩, ⟨.leftParen, 4⟩, ⟨.name "z", 5⟩, ⟨.rightParen, 6⟩] := by decide +kernel
  have shown : (compile "I**√(Z)").map (·.2.tokens) = .ok "1i ^ sqrt ( z )" := by decide +kernel
  have list : Token.listText [.imaginary 1.0, .caret, .name "sqrt", .leftParen, .name "z",
      .rightParen] = "1i ^ sqrt ( z )" := by decide +kernel
  obtain ⟨reads, compiles⟩ := tokens_reread "I**√(Z)"
  refine ⟨list ▸ reads _ scanned, ?_⟩
  cases compiled : compile "I**√(Z)" with
  | error e =>
    rw [compiled] at shown
    cases shown
  | ok r =>
    rw [compiled] at shown
    have tokens : r.2.tokens = "1i ^ sqrt ( z )" := Except.ok.inj shown
    exact ⟨r.1, r.2, rfl, tokens, tokens ▸ compiles _ _ compiled⟩

end Formula
end Argand
