import Argand.Expr

namespace Argand.Expr

variable {R : Type}

theorem postorderOfList_append (xs ys : List (Expr R)) :
    postorderOfList (xs ++ ys) = postorderOfList xs ++ postorderOfList ys := by
  induction xs with
  | nil => rfl
  | cons x xs ih => simp [postorderOfList, ih]

@[simp] theorem postorderOfList_singleton (x : Expr R) : postorderOfList [x] = x.postorder := by
  simp [postorderOfList]

mutual

theorem length_postorder (x : Expr R) : x.postorder.length = x.size := by
  match x with
  | literal _ | unknown => rfl
  | negate x => simp [postorder, size, length_postorder x]; omega
  | binary _ x y => simp [postorder, size, length_postorder x, length_postorder y]; omega
  | call _ xs => simp [postorder, size, length_postorderOfList xs]; omega

theorem length_postorderOfList (xs : List (Expr R)) :
    (postorderOfList xs).length = sizeOfList xs := by
  match xs with
  | [] => rfl
  | x :: xs =>
    simp [postorderOfList, sizeOfList, length_postorder x, length_postorderOfList xs]

end

mutual

def Saturated : Expr R → Prop
  | literal _ | unknown => True
  | negate x => x.Saturated
  | binary _ x y => x.Saturated ∧ y.Saturated
  | call f xs => xs.length = f.arity ∧ SaturatedList xs

def SaturatedList : List (Expr R) → Prop
  | [] => True
  | x :: xs => x.Saturated ∧ SaturatedList xs

end

theorem saturatedList_iff {xs : List (Expr R)} : SaturatedList xs ↔ ∀ x ∈ xs, x.Saturated := by
  induction xs with
  | nil => simp [SaturatedList]
  | cons x xs ih => simp [SaturatedList, ih]

mutual

/-- The subtrees in the order of the listing: each has the index of the item that completes it. -/
def subtrees : Expr R → List (Expr R)
  | literal c => [literal c]
  | unknown => [unknown]
  | negate x => x.subtrees ++ [negate x]
  | binary op x y => x.subtrees ++ y.subtrees ++ [binary op x y]
  | call f xs => subtreesOfList xs ++ [call f xs]

def subtreesOfList : List (Expr R) → List (Expr R)
  | [] => []
  | x :: xs => x.subtrees ++ subtreesOfList xs

end

/-- The item that completes a tree. -/
def root : Expr R → Postfix.Item R
  | literal c => .value c
  | unknown => .unknown
  | negate _ => .negate
  | binary op _ _ => .binary op
  | call f _ => .call f

mutual

theorem postorder_eq_map_root (x : Expr R) : x.postorder = x.subtrees.map root := by
  match x with
  | literal _ | unknown => rfl
  | negate x => simp [postorder, subtrees, root, postorder_eq_map_root x]
  | binary _ x y =>
    simp [postorder, subtrees, root, postorder_eq_map_root x, postorder_eq_map_root y]
  | call _ xs => simp [postorder, subtrees, root, postorderOfList_eq_map_root xs]

theorem postorderOfList_eq_map_root (xs : List (Expr R)) :
    postorderOfList xs = (subtreesOfList xs).map root := by
  match xs with
  | [] => rfl
  | x :: xs =>
    simp [postorderOfList, subtreesOfList, postorder_eq_map_root x, postorderOfList_eq_map_root xs]

end

theorem length_subtrees (x : Expr R) : x.subtrees.length = x.size := by
  rw [← length_postorder, postorder_eq_map_root, List.length_map]

theorem subtrees_eq_snoc (x : Expr R) : ∃ below, x.subtrees = below ++ [x] := by
  cases x with
  | literal | unknown => exact ⟨[], rfl⟩
  | negate | binary | call => exact ⟨_, rfl⟩

mutual

theorem depth_le_of_mem_subtrees (x : Expr R) {t : Expr R} (h : t ∈ x.subtrees) :
    t.depth ≤ x.depth := by
  match x with
  | literal _ | unknown =>
    obtain rfl := List.mem_singleton.mp h
    exact Nat.le_refl _
  | negate x =>
    rcases List.mem_append.mp h with h | h
    · have := depth_le_of_mem_subtrees x h
      simp only [depth]
      omega
    · obtain rfl := List.mem_singleton.mp h
      exact Nat.le_refl _
  | binary _ x y =>
    rcases List.mem_append.mp h with h | h
    · simp only [depth]
      rcases List.mem_append.mp h with h | h
      · have := depth_le_of_mem_subtrees x h
        omega
      · have := depth_le_of_mem_subtrees y h
        omega
    · obtain rfl := List.mem_singleton.mp h
      exact Nat.le_refl _
  | call _ xs =>
    rcases List.mem_append.mp h with h | h
    · have := depth_le_of_mem_subtreesOfList xs h
      simp only [depth]
      omega
    · obtain rfl := List.mem_singleton.mp h
      exact Nat.le_refl _

theorem depth_le_of_mem_subtreesOfList (xs : List (Expr R)) {t : Expr R}
    (h : t ∈ subtreesOfList xs) : t.depth ≤ depthOfList xs := by
  match xs with
  | x :: xs =>
    simp only [depthOfList]
    rcases List.mem_append.mp h with h | h
    · have := depth_le_of_mem_subtrees x h
      omega
    · have := depth_le_of_mem_subtreesOfList xs h
      omega

end

end Argand.Expr
