import Argand.Proofs.Printable

namespace Argand

namespace Postfix

variable {v : String} {ts : List (Located Token)} {items : List (Located (Item Float))}
  {length : Nat}

/-- The postfix order has one item for each token but the parentheses and commas: the one that stands
for the token, at its place. Only operators and calls move. -/
structure Reordered (v : String) (ts : List (Located Token))
    (items : List (Located (Item Float))) : Prop where
  perm : items.Perm (tokenItems v true ts)
  operands : items.filter (·.value.isOperand) = (tokenItems v true ts).filter (·.value.isOperand)
  /-- No token is without an item. -/
  places : (tokenItems v true ts).map (·.position) =
    (ts.filter (·.value.isWord)).map (·.position)

theorem Conserved.reordered (h : Conserved v ts items) : Reordered v ts items := by
  obtain ⟨count, expected, eq, perm, order⟩ := h
  have all : tokenItems v true ts = expected := by simpa [tokenItems] using eq []
  refine ⟨all ▸ perm, all ▸ order, (positions_tokenItems v true ts).eq_of_length ?_⟩
  rw [List.length_map, List.length_map, all, ← perm.length_eq, count, List.countP_eq_length_filter]

theorem conserved_of_read (h : read ts v length = .ok items) : Conserved v ts items := by
  obtain ⟨x, hx, -⟩ := exists_derives_of_read h
  obtain ⟨output, hr, -, conserved⟩ := read_of_derives_conserved hx length
  cases hr.symm.trans h
  exact conserved

end Postfix

namespace Formula

variable {source name : String} {x : Expr Float}

theorem size_of_parse (h : parse source name = .ok x) :
    ∃ ts, Token.scan source.toList = .ok ts ∧ x.size = ts.countP (·.value.isWord) := by
  obtain ⟨ts, items, hs, hr, hb⟩ := parse_eq_ok_iff.mp h
  have listing := (Expr.ofPostfix_eq_ok.mp hb).1
  refine ⟨ts, hs, ?_⟩
  rw [← Expr.length_postorder, ← listing, List.length_map, (Postfix.conserved_of_read hr).1]

end Formula

namespace Postfix

/-- Reading neither loses nor repeats nor mislabels a token, and the tree of a formula has as many
nodes as the formula has tokens other than parentheses and commas. -/
theorem read_reordered : (∀ v ts length items, read ts v length = .ok items →
      Reordered v ts items) ∧
    ∀ source name x, Formula.parse source name = .ok x →
      ∃ ts, Token.scan source.toList = .ok ts ∧ x.size = ts.countP (·.value.isWord) :=
  ⟨fun _ _ _ _ h => (conserved_of_read h).reordered, fun _ _ _ h => Formula.size_of_parse h⟩

/-- The two minus signs of `-log(z, z) - z` become different items, and the name of the logarithm the
one with two arguments. -/
theorem read_reordered_signs :
    Reordered "z"
      [⟨.minus, 0⟩, ⟨.name "log", 1⟩, ⟨.leftParen, 4⟩, ⟨.name "z", 5⟩, ⟨.comma, 6⟩, ⟨.name "z", 8⟩,
        ⟨.rightParen, 9⟩, ⟨.minus, 11⟩, ⟨.name "z", 13⟩]
      [⟨.unknown, 5⟩, ⟨.unknown, 8⟩, ⟨.call .logBase, 1⟩, ⟨.negate, 0⟩, ⟨.unknown, 13⟩,
        ⟨.binary .sub, 11⟩] ∧
    ∃ ts, Token.scan "-log(z, z) - z".toList = .ok ts ∧ 6 = ts.countP (·.value.isWord) := by
  have reads : read
      [⟨.minus, 0⟩, ⟨.name "log", 1⟩, ⟨.leftParen, 4⟩, ⟨.name "z", 5⟩, ⟨.comma, 6⟩, ⟨.name "z", 8⟩,
        ⟨.rightParen, 9⟩, ⟨.minus, 11⟩, ⟨.name "z", 13⟩]
      (String.ofList ("z".toList.map lowerChar)) "-log(z, z) - z".length = .ok
      [⟨.unknown, 5⟩, ⟨.unknown, 8⟩, ⟨.call .logBase, 1⟩, ⟨.negate, 0⟩, ⟨.unknown, 13⟩,
        ⟨.binary .sub, 11⟩] := by decide +kernel
  have parsed : Formula.parse "-log(z, z) - z" "z" =
      .ok (.binary .sub (.negate (.call .logBase [.unknown, .unknown])) .unknown) :=
    Formula.parse_eq_ok_iff.mpr ⟨_, _, by decide +kernel, reads, rfl⟩
  exact ⟨read_reordered.1 _ _ 14 _ reads, read_reordered.2 _ "z" _ parsed⟩

end Postfix
end Argand
