import Argand.Proofs.GrammarDerived

namespace Argand

theorem Located.exists_of_map_eq_cons {α : Type} {us : List (Located α)} {a : α} {as : List α}
    (h : us.map (·.value) = a :: as) :
    ∃ p rest, us = ⟨a, p⟩ :: rest ∧ rest.map (·.value) = as := by
  obtain ⟨⟨b, p⟩, rest, rfl, rfl, hr⟩ := List.map_eq_cons_iff.mp h
  exact ⟨p, rest, rfl, hr⟩

theorem Located.exists_of_map_eq_singleton {α : Type} {us : List (Located α)} {a : α}
    (h : us.map (·.value) = [a]) : ∃ p, us = [⟨a, p⟩] := by
  obtain ⟨p, rest, rfl, hr⟩ := exists_of_map_eq_cons h
  obtain rfl := List.map_eq_nil_iff.mp hr
  exact ⟨p, rfl⟩

mutual

/-- The grammar does not look at the places of the tokens. -/
theorem Derives.relocate {v : String} {l : Phrase} {ts : List (Located Token)} {x : Expr Float}
    (h : Derives v l ts x) (us : List (Located Token))
    (hu : us.map (·.value) = ts.map (·.value)) : Derives v l us x := by
  match h with
  | .number a p =>
    obtain ⟨q, rfl⟩ := Located.exists_of_map_eq_singleton hu
    exact .number a q
  | .imaginary a p =>
    obtain ⟨q, rfl⟩ := Located.exists_of_map_eq_singleton hu
    exact .imaginary a q
  | .unknown p =>
    obtain ⟨q, rfl⟩ := Located.exists_of_map_eq_singleton hu
    exact .unknown q
  | .constant p hv hf hc =>
    obtain ⟨q, rfl⟩ := Located.exists_of_map_eq_singleton hu
    exact .constant q hv hf hc
  | .parentheses p q h =>
    rw [List.map_cons, List.map_append] at hu
    obtain ⟨p', rest, rfl, hr⟩ := Located.exists_of_map_eq_cons hu
    obtain ⟨inner, last, rfl, hi, hl⟩ := List.map_eq_append_iff.mp hr
    obtain ⟨q', rfl⟩ := Located.exists_of_map_eq_singleton hl
    exact .parentheses p' q' (h.relocate inner hi)
  | .call p q r hv hf h hr =>
    rw [List.map_cons, List.map_cons, List.map_append] at hu
    obtain ⟨p', more, rfl, hmore⟩ := Located.exists_of_map_eq_cons hu
    obtain ⟨q', rest, rfl, hrest⟩ := Located.exists_of_map_eq_cons hmore
    obtain ⟨inner, last, rfl, hi, hl⟩ := List.map_eq_append_iff.mp hrest
    obtain ⟨r', rfl⟩ := Located.exists_of_map_eq_singleton hl
    exact .call p' q' r' hv hf (h.relocate inner hi) hr
  | .negate p h =>
    rw [List.map_cons] at hu
    obtain ⟨p', rest, rfl, hr⟩ := Located.exists_of_map_eq_cons hu
    exact .negate p' (h.relocate rest hr)
  | .binary op p hl hr =>
    rw [List.map_append, List.map_cons] at hu
    obtain ⟨left, more, rfl, hleft, hmore⟩ := List.map_eq_append_iff.mp hu
    obtain ⟨p', right, rfl, hright⟩ := Located.exists_of_map_eq_cons hmore
    exact .binary op p' (hl.relocate left hleft) (hr.relocate right hright)
  | .loosen h => exact .loosen (h.relocate us hu)

theorem DerivesList.relocate {v : String} {ts : List (Located Token)} {xs : List (Expr Float)}
    (h : DerivesList v ts xs) (us : List (Located Token))
    (hu : us.map (·.value) = ts.map (·.value)) : DerivesList v us xs := by
  match h with
  | .single h => exact .single (h.relocate us hu)
  | .more p hs h =>
    rw [List.map_append, List.map_cons] at hu
    obtain ⟨front, more, rfl, hfront, hmore⟩ := List.map_eq_append_iff.mp hu
    obtain ⟨p', last, rfl, hlast⟩ := Located.exists_of_map_eq_cons hmore
    exact .more p' (hs.relocate front hfront) (h.relocate last hlast)

end

/-- The same tokens at other places give the same items. -/
theorem Postfix.read_relocated {v : String} {ts us : List (Located Token)} {length : Nat}
    {items : List (Located (Item Float))}
    (h : read ts v length = .ok items) (hu : us.map (·.value) = ts.map (·.value)) (length' : Nat) :
    ∃ items', read us v length' = .ok items' ∧ items'.map (·.value) = items.map (·.value) := by
  obtain ⟨x, hx, listing⟩ := exists_derives_of_read h
  obtain ⟨items', read', listing'⟩ := read_of_derives (hx.relocate us hu) length'
  exact ⟨items', read', listing'.trans listing.symm⟩

end Argand
