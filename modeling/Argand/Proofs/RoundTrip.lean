import Argand.Proofs.Printable

namespace Argand

variable {v : String} {ts us : List (Located Token)} {x y : Expr Float} {rest : List Char}

/-- An argument may be added in front, although the grammar adds them at the end. -/
theorem DerivesList.cons (h : Derives v .expression ts x) (p : Nat) {us : List (Located Token)}
    {xs : List (Expr Float)} (hs : DerivesList v us xs) :
    DerivesList v (ts ++ ⟨.comma, p⟩ :: us) (x :: xs) := by
  cases hs with
  | single h' => exact .more p (.single h) h'
  | more q hs h' =>
    have longer := (cons h p hs).more q h'
    rwa [List.append_assoc] at longer
termination_by xs.length
decreasing_by simp

theorem Derives.negated (h : Derives v .atom ts x) (p q r : Nat) :
    Derives v .atom (⟨.leftParen, p⟩ :: (⟨.minus, q⟩ :: ts ++ [⟨.rightParen, r⟩])) (.negate x) :=
  .parentheses p r (Derives.negate q (h.loosenTo (by decide))).toExpression

theorem Derives.operated (op : Operator) (hl : Derives v .atom ts x) (hr : Derives v .atom us y)
    (p q r : Nat) :
    Derives v .atom (⟨.leftParen, p⟩ :: (ts ++ ⟨op.token, q⟩ :: us ++ [⟨.rightParen, r⟩]))
      (.binary op x y) :=
  .parentheses p r (Derives.binary op q (hl.loosenTo (by cases op <;> decide))
    (hr.loosenTo (by cases op <;> decide))).toExpression

namespace Token

theorem scanFrom_char {c : Char} {t : Token} (hb : isBlank c = false)
    (hl : lex c rest = .ok (t, 0)) (p : Nat) (found : List (Located Token)) :
    scanFrom p found (c :: rest) = scanFrom (p + 1) (⟨t, p⟩ :: found) rest :=
  scanFrom_of_lex [] hb hl p found

theorem symbol?_of_beginsWord {c : Char} (hc : (c.isAlpha || c == '_') = true) :
    symbol? c = none := by
  unfold symbol?
  split <;> first | rfl | exact absurd hc (by decide)

/-- A word goes on as long as it can. -/
theorem lex_word {c : Char} {cs : List Char} (hc : (c.isAlpha || c == '_') = true)
    (h : ∀ d ∈ cs, isNameChar d = true) (hr : rest.head?.any isNameChar = false) :
    lex c (cs ++ rest) = .ok (ofWord (c :: cs), cs.length) := by
  have notStar : (c == '*') = false := by
    rw [beq_eq_false_iff_ne]
    rintro rfl
    exact absurd hc (by decide)
  have taken : (cs ++ rest).takeWhile isNameChar = cs := by
    refine takeWhile_of_head h fun d hd => ?_
    rw [hd] at hr
    exact hr
  simp only [lex, symbol?_of_beginsWord hc, notStar, hc, taken, if_true, Bool.false_eq_true,
    if_false]

/-- A word that the scanner gives back as it is written. -/
structure IsWord (word : List Char) (c : Char) (cs : List Char) : Prop where
  eq : word = c :: cs
  notSymbol : symbol? c = none
  letter : c.isAlpha = true
  notBlank : isBlank c = false
  chars : ∀ d ∈ cs, isNameChar d = true
  name : ofWord word = .name (String.ofList word)

theorem IsWord.scanFrom {word cs : List Char} {c : Char} (h : IsWord word c cs)
    (rest : List Char) (hr : rest.head?.any isNameChar = false) (p : Nat)
    (found : List (Located Token)) :
    ∃ q, scanFrom p found (word ++ rest) =
      Token.scanFrom q (⟨.name (String.ofList word), p⟩ :: found) rest := by
  have lexed := lex_word (Bool.or_eq_true_iff.mpr (Or.inl h.letter)) h.chars hr
  rw [← h.eq, h.name] at lexed
  rw [h.eq]
  exact ⟨_, scanFrom_of_lex _ h.notBlank (h.eq ▸ lexed) p found⟩

theorem isWord_variable : IsWord variableName.toList 'z' [] :=
  ⟨rfl, rfl, rfl, rfl, by simp, rfl⟩

theorem isWord_builtin (f : Builtin) : ∃ c cs, IsWord f.name.toList c cs := by
  cases f <;> exact ⟨_, _, rfl, rfl, rfl, rfl, List.all_eq_true.mp rfl, rfl⟩

theorem scanFrom_operator (op : Operator) (p : Nat) (found : List (Located Token)) :
    scanFrom p found (op.symbol.toList ++ ' ' :: rest) =
      scanFrom (p + 1) (⟨op.token, p⟩ :: found) (' ' :: rest) := by
  cases op <;> exact scanFrom_char rfl rfl p found

end Token

namespace Builtin

theorem name_ne_variable (f : Builtin) : f.name ≠ variableName := by
  cases f <;> decide

theorem isName_name (f : Builtin) : isName f.name = true := by
  cases f <;> rfl

theorem resolve_name (f : Builtin) : resolve f.name f.arity = .ok f := by
  cases f <;> rfl

end Builtin

namespace Expr

open Token (scanFrom)

theorem scan_literal {c : Complex Float} (h : PlainLiteral c) (hr : Delimited rest) (p : Nat)
    (found : List (Located Token)) : ∃ ts q, Derives variableName .atom ts (literal c) ∧
      scanFrom p found ((literalText c).toList ++ rest) =
        scanFrom q (ts.reverse ++ found) rest := by
  obtain ⟨a, b⟩ := c
  rcases h with ⟨ha, rfl⟩ | ⟨rfl, hb⟩
  · have zero : ((0.0 : Float) == 0.0) = true := by decide
    obtain ⟨q, hq⟩ := Token.scanFrom_number ha hr p found
    refine ⟨[⟨.number a, p⟩], q, .number a p, ?_⟩
    rw [literalText, if_pos zero]
    exact hq
  · simp only [literalText]
    split
    next hz =>
      obtain rfl : b = 0.0 := hb.eq_of_beq plain_zero hz
      obtain ⟨q, hq⟩ := Token.scanFrom_number plain_zero hr p found
      exact ⟨[⟨.number 0.0, p⟩], q, .number 0.0 p, hq⟩
    next hz =>
      obtain ⟨q, hq⟩ := Token.scanFrom_imaginary hb hr p found
      exact ⟨[⟨.imaginary b, p⟩], q, .imaginary b p, hq⟩

mutual

/-- The text of a tree scans as an atom of the grammar that stands for the tree. -/
theorem scan_write (x : Expr Float) (hl : PlainValues x.postorder) (hs : x.Saturated)
    (rest : List Char) (hr : Delimited rest) (p : Nat) (found : List (Located Token)) :
    ∃ ts q, Derives variableName .atom ts x ∧
      scanFrom p found (x.write rest) = scanFrom q (ts.reverse ++ found) rest := by
  match x with
  | literal c => exact scan_literal (plainValues_value.mp hl) hr p found
  | unknown =>
    obtain ⟨q, hq⟩ := Token.isWord_variable.scanFrom rest hr.not_nameChar p found
    exact ⟨[⟨.name variableName, p⟩], q, .unknown p, hq⟩
  | negate x =>
    obtain ⟨ts, q, hx, hq⟩ := scan_write x (plainValues_append.mp hl).1 hs (')' :: rest)
      (Or.inl rfl) (p + 1 + 1) (⟨.minus, p + 1⟩ :: ⟨.leftParen, p⟩ :: found)
    refine ⟨_, q + 1, hx.negated p (p + 1) q, ?_⟩
    rw [write, Token.scanFrom_char rfl rfl, Token.scanFrom_char rfl rfl, hq,
      Token.scanFrom_char rfl rfl]
    simp
  | binary op x y =>
    obtain ⟨operands, -⟩ := plainValues_append.mp hl
    obtain ⟨left, right⟩ := plainValues_append.mp operands
    obtain ⟨ts, q, hx, hq⟩ := scan_write x left hs.1
      (' ' :: (op.symbol.toList ++ ' ' :: y.write (')' :: rest))) (Or.inr (Or.inl rfl)) (p + 1)
      (⟨.leftParen, p⟩ :: found)
    obtain ⟨us, r, hy, hr'⟩ := scan_write y right hs.2 (')' :: rest) (Or.inl rfl) (q + 1 + 1 + 1)
      (⟨op.token, q + 1⟩ :: (ts.reverse ++ ⟨.leftParen, p⟩ :: found))
    refine ⟨_, r + 1, hx.operated op hy p (q + 1) r, ?_⟩
    rw [write, Token.scanFrom_char rfl rfl, hq, Token.scanFrom_blank rfl, Token.scanFrom_operator,
      Token.scanFrom_blank rfl, hr', Token.scanFrom_char rfl rfl]
    simp
  | call f xs =>
    obtain ⟨count, saturated⟩ := hs
    obtain ⟨c, cs, word⟩ := Token.isWord_builtin f
    obtain ⟨q, hq⟩ := word.scanFrom ('(' :: writeArguments xs (')' :: rest)) rfl p found
    obtain ⟨ts, r, hxs, hr'⟩ := scan_writeArguments xs
      (List.ne_nil_of_length_pos (count ▸ f.arity_pos)) (plainValues_append.mp hl).1 saturated
      (')' :: rest) (Or.inl rfl) (q + 1) (⟨.leftParen, q⟩ :: ⟨.name f.name, p⟩ :: found)
    refine ⟨_, r + 1, .call p q r f.name_ne_variable f.isName_name hxs
      (count ▸ f.resolve_name), ?_⟩
    rw [String.ofList_toList] at hq
    rw [write, hq, Token.scanFrom_char rfl rfl, hr', Token.scanFrom_char rfl rfl]
    simp

theorem scan_writeArguments (xs : List (Expr Float)) (hne : xs ≠ [])
    (hl : PlainValues (postorderOfList xs)) (hs : SaturatedList xs) (rest : List Char)
    (hr : Delimited rest) (p : Nat) (found : List (Located Token)) :
    ∃ ts q, DerivesList variableName ts xs ∧
      scanFrom p found (writeArguments xs rest) = scanFrom q (ts.reverse ++ found) rest := by
  match xs with
  | [x] =>
    obtain ⟨ts, q, hx, hq⟩ := scan_write x (by simpa using hl) hs.1 rest hr p found
    exact ⟨ts, q, .single hx.toExpression, hq⟩
  | x :: y :: more =>
    obtain ⟨first, others⟩ := plainValues_append.mp hl
    obtain ⟨ts, q, hx, hq⟩ := scan_write x first hs.1
      (',' :: ' ' :: writeArguments (y :: more) rest) (Or.inr (Or.inr rfl)) p found
    obtain ⟨us, r, hxs, hr'⟩ := scan_writeArguments (y :: more) (List.cons_ne_nil _ _) others hs.2
      rest hr (q + 1 + 1) (⟨.comma, q⟩ :: (ts.reverse ++ found))
    refine ⟨_, r, hxs.cons hx.toExpression q, ?_⟩
    rw [writeArguments, hq, Token.scanFrom_char rfl rfl, Token.scanFrom_blank rfl, hr']
    simp

end

theorem Printable.parse_text (h : x.Printable) : Formula.parse x.text variableName = .ok x := by
  obtain ⟨ts, q, hx, hq⟩ := scan_write x h.literals h.saturated [] trivial 0 []
  have scanned : Token.scan x.text.toList = .ok ts := by
    rw [text, String.toList_ofList, Token.scan, hq, Token.scanFrom_nil]
    simp
  have lower : String.ofList (variableName.toList.map lowerChar) = variableName := by decide
  obtain ⟨items, hread, listing⟩ := Postfix.read_of_derives hx.toExpression x.text.length
  refine Formula.parse_eq_ok_iff.mpr ⟨ts, items, scanned, by rw [lower, hread], ?_⟩
  refine ofPostfix_eq_ok.mpr ⟨listing, h.saturated, h.depth_le, ?_⟩
  rw [← List.length_map (·.value), listing, length_postorder]
  exact h.size_le

/-- The trees that can be printed are those that some text reads as, and those that their own text
reads as, so that this text is printed again. -/
theorem printable_iff_parse (x : Expr Float) :
    (x.Printable ↔ ∃ source name, Formula.parse source name = .ok x) ∧
      (x.Printable ↔ Formula.parse x.text variableName = .ok x ∧
        (Formula.parse x.text variableName).map text = .ok x.text) := by
  refine ⟨⟨fun h => ⟨_, _, h.parse_text⟩, ?_⟩, fun h => ⟨h.parse_text, ?_⟩, ?_⟩
  · rintro ⟨source, name, h⟩
    exact Formula.printable_of_parse h
  · rw [h.parse_text]
    rfl
  · rintro ⟨h, -⟩
    exact Formula.printable_of_parse h

end Expr
end Argand
