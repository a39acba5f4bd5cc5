import Argand.Formula
import Argand.Proofs.GrammarDerived
import Argand.Proofs.NumberText
import Argand.Proofs.TreeBuilding

namespace Argand

open Postfix (Item)

/-- A real or an imaginary number without a sign. -/
def PlainLiteral (c : Complex Float) : Prop :=
  (Plain c.re ∧ c.im = 0.0) ∨ (c.re = 0.0 ∧ Plain c.im)

def PlainValues (items : List (Item Float)) : Prop :=
  ∀ i ∈ items, ∀ c, i = .value c → PlainLiteral c

@[simp] theorem plainValues_append {items more : List (Item Float)} :
    PlainValues (items ++ more) ↔ PlainValues items ∧ PlainValues more :=
  List.forall_mem_append

@[simp] theorem plainValues_value {c : Complex Float} :
    PlainValues [.value c] ↔ PlainLiteral c := by
  simp [PlainValues]

theorem plainValues_operation {i : Item Float} (h : ∀ c, i ≠ .value c) : PlainValues [i] := by
  simp [PlainValues, h]

/-- A tree within the limits that the text of a formula can express. -/
structure Expr.Printable (x : Expr Float) : Prop where
  literals : PlainValues x.postorder
  saturated : x.Saturated
  depth_le : x.depth ≤ maxDepth
  size_le : x.size ≤ maxSize

namespace Token

/-- A token without a number, or with one that has no sign. -/
def HasPlainNumber : Token → Prop
  | number v | imaginary v => Plain v
  | _ => True

theorem plain_one : Plain 1.0 := plain_iff.mpr (Or.inr ⟨2 ^ 52, -52, by decide, rfl⟩)

theorem plain_ofWord (word : List Char) : (ofWord word).HasPlainNumber := by
  unfold ofWord
  dsimp only
  split
  · exact plain_one
  · trivial

theorem plain_lexNumber {cs : List Char} {t : Token} {n : Nat} (h : lexNumber cs = .ok (t, n)) :
    t.HasPlainNumber := by
  cases lexesNumber_of_lexNumber h with
  | imaginary finite => exact Decimal.plain_toFloat _ finite
  | number finite => exact Decimal.plain_toFloat _ finite

theorem plain_symbol {c : Char} {t : Token} (h : symbol? c = some t) : t.HasPlainNumber := by
  unfold symbol? at h
  split at h <;> cases h <;> trivial

theorem plain_lex {c : Char} {cs : List Char} {t : Token} {n : Nat}
    (h : lex c cs = .ok (t, n)) : t.HasPlainNumber := by
  cases lexes_of_lex h with
  | symbol found => exact plain_symbol found
  | power => trivial
  | star => trivial
  | word => exact plain_ofWord _
  | number _ lexed => exact plain_lexNumber lexed

/-- All numbers of a scanned text are finite and have no sign. -/
theorem plain_scanFrom (cs : List Char) (p : Nat) (found ts : List (Located Token))
    (hf : ∀ t ∈ found, t.value.HasPlainNumber) (h : scanFrom p found cs = .ok ts) :
    ∀ t ∈ ts, t.value.HasPlainNumber := by
  match cs with
  | [] =>
    rw [scanFrom_nil] at h
    cases h
    exact fun t ht => hf t (List.mem_reverse.mp ht)
  | c :: cs =>
    rw [scanFrom_cons] at h
    split at h
    next => exact plain_scanFrom cs _ _ _ hf h
    next =>
      split at h
      next => simp at h
      next token extra hl =>
        exact plain_scanFrom (cs.drop extra) _ _ _
          (List.forall_mem_cons.mpr ⟨plain_lex hl, hf⟩) h
termination_by cs.length
decreasing_by all_goals simp only [List.length_cons, List.length_drop]; omega

end Token

theorem plainLiteral_constant {n : String} {c : Complex Float} (h : constant? n = some c) :
    PlainLiteral c := by
  unfold constant? at h
  split at h
  next =>
    cases h
    exact Or.inl ⟨plain_iff.mpr (Or.inr ⟨_, _, _, rfl⟩), rfl⟩
  next =>
    split at h
    next =>
      cases h
      exact Or.inl ⟨plain_iff.mpr (Or.inr ⟨_, _, _, rfl⟩), rfl⟩
    next => simp at h

namespace Builtin

theorem entry_arity {e : Entry} (h : e ∈ registry) : e.function.arity = e.arity := by
  revert e
  decide

theorem arity_of_resolve {n : String} {k : Nat} {f : Builtin} (h : resolve n k = .ok f) :
    f.arity = k := by
  unfold resolve at h
  split at h
  next => simp at h
  next first rest hentries =>
    split at h
    next e he =>
      cases h
      have mem : e ∈ registry := by
        have inside := List.mem_of_find?_eq_some he
        rw [← hentries] at inside
        exact (List.mem_filter.mp inside).1
      rw [entry_arity mem]
      simpa using List.find?_some he
    next => simp at h

theorem arity_pos (f : Builtin) : 0 < f.arity := by
  cases f <;> decide

end Builtin

mutual

/-- A tree of the grammar has the literals of its tokens, and calls with the right number of
arguments. -/
theorem Derives.expressible {v : String} {l : Phrase} {ts : List (Located Token)} {x : Expr Float}
    (h : Derives v l ts x) (ht : ∀ t ∈ ts, t.value.HasPlainNumber) :
    PlainValues x.postorder ∧ x.Saturated := by
  match h with
  | .number a p =>
    exact ⟨plainValues_value.mpr (Or.inl ⟨ht _ (List.mem_singleton_self _), rfl⟩), trivial⟩
  | .imaginary a p =>
    exact ⟨plainValues_value.mpr (Or.inr ⟨rfl, ht _ (List.mem_singleton_self _)⟩), trivial⟩
  | .unknown p => exact ⟨plainValues_operation nofun, trivial⟩
  | .constant p hv hf hc => exact ⟨plainValues_value.mpr (plainLiteral_constant hc), trivial⟩
  | .parentheses p q h => exact h.expressible fun t ht' => ht t (by simp [ht'])
  | .call p q r hv hf h hr =>
    obtain ⟨literals, saturated⟩ := h.expressible fun t ht' => ht t (by simp [ht'])
    exact ⟨plainValues_append.mpr ⟨literals, plainValues_operation nofun⟩,
      (Builtin.arity_of_resolve hr).symm, saturated⟩
  | .negate p h =>
    obtain ⟨literals, saturated⟩ := h.expressible fun t ht' => ht t (by simp [ht'])
    exact ⟨plainValues_append.mpr ⟨literals, plainValues_operation nofun⟩, saturated⟩
  | .binary op p hl hr =>
    obtain ⟨left, saturated⟩ := hl.expressible fun t ht' => ht t (by simp [ht'])
    obtain ⟨right, saturated'⟩ := hr.expressible fun t ht' => ht t (by simp [ht'])
    exact ⟨plainValues_append.mpr ⟨plainValues_append.mpr ⟨left, right⟩,
      plainValues_operation nofun⟩, saturated, saturated'⟩
  | .loosen h => exact h.expressible ht

theorem DerivesList.expressible {v : String} {ts : List (Located Token)} {xs : List (Expr Float)}
    (h : DerivesList v ts xs) (ht : ∀ t ∈ ts, t.value.HasPlainNumber) :
    PlainValues (Expr.postorderOfList xs) ∧ Expr.SaturatedList xs := by
  match h with
  | .single h =>
    obtain ⟨literals, saturated⟩ := h.expressible ht
    exact ⟨by simpa using literals, saturated, trivial⟩
  | .more p hs h =>
    obtain ⟨front, saturated⟩ := hs.expressible fun t ht' => ht t (by simp [ht'])
    obtain ⟨last, saturated'⟩ := h.expressible fun t ht' => ht t (by simp [ht'])
    refine ⟨by simp [Expr.postorderOfList_append, front, last], ?_⟩
    rw [Expr.saturatedList_iff] at saturated ⊢
    exact List.forall_mem_append.mpr ⟨saturated, by simpa using saturated'⟩

end

theorem bind_eq_ok_iff {α β : Type} {x : Except ReadError α} {f : α → Except ReadError β} {b : β} :
    (x >>= f) = .ok b ↔ ∃ a, x = .ok a ∧ f a = .ok b := by
  cases x with
  | error e => exact ⟨nofun, nofun⟩
  | ok a => exact ⟨fun h => ⟨a, rfl, h⟩, fun ⟨_, rfl, h⟩ => h⟩

namespace Formula

theorem stages_eq_ok_iff {source v : String} {s : Stages} :
    stages source v = .ok s ↔ Token.scan source.toList = .ok s.tokens ∧
      Postfix.read s.tokens (String.ofList (v.toList.map lowerChar)) source.length = .ok s.items ∧
        Expr.ofPostfix s.items = .ok s.tree := by
  unfold stages
  constructor
  · intro h
    obtain ⟨tokens, scanned, h⟩ := bind_eq_ok_iff.mp h
    obtain ⟨items, read, h⟩ := bind_eq_ok_iff.mp h
    obtain ⟨tree, built, h⟩ := bind_eq_ok_iff.mp h
    cases h
    exact ⟨scanned, read, built⟩
  · rintro ⟨scanned, read, built⟩
    exact bind_eq_ok_iff.mpr ⟨_, scanned, bind_eq_ok_iff.mpr ⟨_, read,
      bind_eq_ok_iff.mpr ⟨_, built, rfl⟩⟩⟩

theorem parse_eq_ok_iff {source v : String} {x : Expr Float} :
    parse source v = .ok x ↔ ∃ tokens items, Token.scan source.toList = .ok tokens ∧
      Postfix.read tokens (String.ofList (v.toList.map lowerChar)) source.length = .ok items ∧
        Expr.ofPostfix items = .ok x := by
  constructor
  · intro h
    rw [parse] at h
    cases staged : stages source v with
    | error e =>
      rw [staged] at h
      cases h
    | ok s =>
      rw [staged] at h
      cases h
      exact ⟨s.tokens, s.items, stages_eq_ok_iff.mp staged⟩
  · rintro ⟨tokens, items, parts⟩
    rw [parse, stages_eq_ok_iff (s := ⟨tokens, items, x⟩).mpr parts]
    rfl

theorem printable_of_parse {source v : String} {x : Expr Float} (h : parse source v = .ok x) :
    x.Printable := by
  obtain ⟨tokens, items, hs, hr, hb⟩ := parse_eq_ok_iff.mp h
  obtain ⟨y, hy, ho⟩ := Postfix.exists_derives_of_read hr
  obtain ⟨listing, saturated, depth, size⟩ := Expr.ofPostfix_eq_ok.mp hb
  have plain := Token.plain_scanFrom _ _ _ _ (by simp) hs
  refine ⟨?_, saturated, depth, ?_⟩
  · rw [← listing, ho]
    exact (hy.expressible plain).1
  · rwa [← Expr.length_postorder, ← listing, List.length_map]

end Formula
end Argand
