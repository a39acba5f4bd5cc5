import Argand.Proofs.TreeBuilding

namespace Argand.Expr

open Postfix (Item)

/-- The item with the given index is one too many, or it completes a tree with too many levels. -/
def Over (x : Expr Float) (i : Nat) : Prop :=
  maxSize < i + 1 ∨ ∃ t, x.subtrees[i]? = some t ∧ maxDepth < t.depth

theorem not_over_of_accepted {x : Expr Float} {i n : Nat}
    (h : Builder.Accepted 0 x.subtrees n) (hi : i < n) (hx : i < x.size) : ¬ x.Over i := by
  have bound : i < x.subtrees.length := by rwa [length_subtrees]
  have accepted := h i hi _ (List.getElem?_eq_getElem bound)
  rw [Nat.zero_add] at accepted
  obtain ⟨rank, depth⟩ := Builder.refusal_eq_none_iff.mp accepted
  rintro (long | ⟨t, ht, deep⟩)
  · omega
  · obtain rfl := Option.some.inj ((List.getElem?_eq_getElem bound).symm.trans ht)
    omega

theorem over_of_refusal {x t : Expr Float} {i : Nat} {cause : ReadError.Cause}
    (ht : x.subtrees[i]? = some t) (h : Builder.refusal? (i + 1) t = some cause) :
    x.Over i ∧ cause = if maxSize < i + 1 then .tooLong maxSize else .tooDeep maxDepth := by
  unfold Builder.refusal? at h
  by_cases hr : maxSize < i + 1
  · rw [if_pos hr] at h ⊢
    exact ⟨Or.inl hr, (Option.some.inj h).symm⟩
  · rw [if_neg hr] at h ⊢
    by_cases hd : maxDepth < t.depth
    · rw [if_pos hd] at h
      exact ⟨Or.inr ⟨t, ht, hd⟩, (Option.some.inj h).symm⟩
    · simp [hd] at h

/-- A tree beyond a limit has an item beyond it: its last one, or the first one too many. -/
theorem exists_over {x : Expr Float} (h : maxDepth < x.depth ∨ maxSize < x.size) :
    ∃ i < x.size, x.Over i := by
  rcases h with deep | long
  · obtain ⟨below, eq⟩ := subtrees_eq_snoc x
    have len := length_subtrees x
    rw [eq, List.length_append, List.length_singleton] at len
    exact ⟨below.length, by omega, Or.inr ⟨x, by simp [eq], deep⟩⟩
  · exact ⟨maxSize, long, Or.inl (Nat.lt_succ_self maxSize)⟩

/-- The listing of a tree beyond the limits is refused at the first item beyond them. -/
theorem ofPostfix_of_over {items : List (Located (Item Float))} {x : Expr Float}
    (hi : items.map (·.value) = x.postorder) (hs : x.Saturated)
    (h : maxDepth < x.depth ∨ maxSize < x.size) :
    ∃ i item, items[i]? = some item ∧ x.Over i ∧ (∀ j < i, ¬ x.Over j) ∧
      ofPostfix items = .error ⟨item.position,
        if maxSize < i + 1 then .tooLong maxSize else .tooDeep maxDepth⟩ := by
  have len := Builder.length_of_listing hi
  rcases Builder.foldlM_accept items x.subtrees len 0 with
    ⟨-, all⟩ | ⟨i, item, t, cause, hitem, ht, refused, all, stopped⟩
  · obtain ⟨i, hlt, exceeds⟩ := exists_over h
    exact absurd exceeds (not_over_of_accepted all (by rwa [len, length_subtrees]) hlt)
  · have hlt := (List.getElem?_eq_some_iff.mp ht).1
    rw [length_subtrees] at hlt
    rw [Nat.zero_add] at refused
    obtain ⟨exceeds, eq⟩ := over_of_refusal ht refused
    refine ⟨i, item, hitem, exceeds, fun j hj => not_over_of_accepted all hj (by omega), ?_⟩
    rw [ofPostfix_listing hi hs, stopped, eq]
    rfl

/-- The tree of a list of items is the one that they list, if it is within the limits, and a list
beyond them is refused where it first exceeds them. -/
theorem ofPostfix_inverts_listing (items : List (Located (Item Float))) (x : Expr Float) :
    (ofPostfix items = .ok x ↔ items.map (·.value) = x.postorder ∧ x.Saturated ∧
      x.depth ≤ maxDepth ∧ items.length ≤ maxSize) ∧
    (items.map (·.value) = x.postorder → x.Saturated →
      maxDepth < x.depth ∨ maxSize < items.length →
      ∃ i item, items[i]? = some item ∧ x.Over i ∧ (∀ j < i, ¬ x.Over j) ∧
        ofPostfix items = .error ⟨item.position,
          if maxSize < i + 1 then .tooLong maxSize else .tooDeep maxDepth⟩) := by
  refine ⟨ofPostfix_eq_ok, fun hi hs h => ofPostfix_of_over hi hs ?_⟩
  rwa [Builder.length_of_listing hi, length_subtrees] at h

/-- The variable with so many signs in front of it. -/
def signed : Nat → Expr Float
  | 0 => unknown
  | n + 1 => negate (signed n)

theorem saturated_signed (n : Nat) : (signed n).Saturated := by
  induction n with
  | zero => trivial
  | succ n ih => exact ih

/-- The items of the variable with so many signs, each at the place of its character. -/
def signedItems (n : Nat) : List (Located (Item Float)) :=
  ⟨.unknown, n⟩ :: (List.range n).reverse.map fun place => ⟨.negate, place⟩

theorem ofPostfix_inverts_listing_signed :
    ∃ i item, (signedItems 256)[i]? = some item ∧ (signed 256).Over i ∧
      (∀ j < i, ¬ (signed 256).Over j) ∧ ofPostfix (signedItems 256) = .error ⟨item.position,
        if maxSize < i + 1 then .tooLong maxSize else .tooDeep maxDepth⟩ :=
  (ofPostfix_inverts_listing (signedItems 256) (signed 256)).2 (by decide +kernel)
    (saturated_signed 256) (Or.inl (by decide +kernel))

end Argand.Expr
