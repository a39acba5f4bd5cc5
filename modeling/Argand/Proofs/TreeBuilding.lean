import Argand.Expr.Build
import Argand.Proofs.Postorder

namespace Argand.Expr

open Postfix (Item)

/-- The entry of a tree on the builder's stack. -/
def withDepth (x : Expr Float) : Expr Float × Nat := (x, x.depth)

theorem foldl_max_depth (xs : List (Expr Float)) (d : Nat) :
    ((xs.map withDepth).map (·.2)).foldl max d = max d (depthOfList xs) := by
  induction xs generalizing d with
  | nil => simp [depthOfList]
  | cons x xs ih => simp only [List.map_cons, List.foldl_cons, ih, withDepth, depthOfList]; omega

namespace Builder

theorem combine_call (f : Builtin) (xs : List (Expr Float)) (stack : List (Expr Float × Nat))
    (h : xs.length = f.arity) :
    combine? ((xs.map withDepth).reverse ++ stack) (.call f) =
      some (withDepth (call f xs), stack) := by
  have taken : ((xs.map withDepth).reverse ++ stack).take f.arity = (xs.map withDepth).reverse := by
    simp [← h]
  have dropped : ((xs.map withDepth).reverse ++ stack).drop f.arity = stack := by
    simp [← h]
  simp only [combine?, taken, dropped, List.reverse_reverse, List.length_map, h, Nat.lt_irrefl,
    if_false, foldl_max_depth]
  simp [withDepth, depth, Function.comp_def]

/-- Why the tree that the item of the given rank completes is refused; the rank is looked at first. -/
def refusal? (rank : Nat) (x : Expr Float) : Option ReadError.Cause :=
  if maxSize < rank then some (.tooLong maxSize)
  else if maxDepth < x.depth then some (.tooDeep maxDepth)
  else none

theorem refusal_eq_none_iff {rank : Nat} {x : Expr Float} :
    refusal? rank x = none ↔ rank ≤ maxSize ∧ x.depth ≤ maxDepth := by
  by_cases hr : maxSize < rank
  · simp [refusal?, hr, Nat.not_le.mpr hr]
  · by_cases hd : maxDepth < x.depth
    · simp [refusal?, hr, hd, Nat.not_le.mpr hd]
    · simp [refusal?, hr, hd, Nat.not_lt.mp hr, Nat.not_lt.mp hd]

/-- The rank of an item, if the tree that it completes is not refused. -/
def accept (count : Nat) (entry : Located (Item Float) × Expr Float) : Except ReadError Nat :=
  match refusal? (count + 1) entry.2 with
  | some cause => .error ⟨entry.1.position, cause⟩
  | none => .ok (count + 1)

theorem step_of_combine {stack rest : List (Expr Float × Nat)} {item : Located (Item Float)}
    {x : Expr Float} (h : combine? stack item.value = some (withDepth x, rest)) (count : Nat) :
    step ⟨stack, count⟩ item = (accept count (item, x)).map (mk (withDepth x :: rest)) := by
  by_cases hc : maxSize < count + 1
  · simp [step, accept, refusal?, hc, Except.map]
  · by_cases hd : maxDepth < x.depth
    · simp [step, accept, refusal?, h, withDepth, hc, hd, Except.map]
    · simp [step, accept, refusal?, h, withDepth, hc, hd, Except.map]

/-- The items complete the given trees one by one and turn a stack into another, as far as each tree
is accepted. -/
def Builds (stack : List (Expr Float × Nat)) (items : List (Located (Item Float)))
    (trees : List (Expr Float)) (stack' : List (Expr Float × Nat)) : Prop :=
  ∀ count, items.foldlM step ⟨stack, count⟩ =
    ((items.zip trees).foldlM accept count).map (mk stack')

theorem Builds.nil (stack : List (Expr Float × Nat)) : Builds stack [] [] stack := fun _ => rfl

theorem Builds.append {stack stack' stack'' : List (Expr Float × Nat)}
    {items more : List (Located (Item Float))} {trees trees' : List (Expr Float)}
    (h : Builds stack items trees stack') (hm : Builds stack' more trees' stack'')
    (len : items.length = trees.length) :
    Builds stack (items ++ more) (trees ++ trees') stack'' := by
  intro count
  rw [List.zip_append len, List.foldlM_append, List.foldlM_append, h count]
  cases (items.zip trees).foldlM accept count with
  | error e => rfl
  | ok n => exact hm n

theorem Builds.last {stack rest : List (Expr Float × Nat)} {item : Located (Item Float)}
    {x : Expr Float} (h : combine? stack item.value = some (withDepth x, rest)) :
    Builds stack [item] [x] (withDepth x :: rest) := by
  intro count
  have step := step_of_combine h count
  simp only [List.zip_cons_cons, List.zip_nil_right, List.foldlM_cons, List.foldlM_nil, step]
  cases accept count (item, x) <;> rfl

theorem exists_of_map_eq_snoc {items : List (Located (Item Float))} {front : List (Item Float)}
    {last : Item Float} (h : items.map (·.value) = front ++ [last]) :
    ∃ is i, items = is ++ [i] ∧ is.map (·.value) = front ∧ i.value = last := by
  obtain ⟨is, js, rfl, hf, hl⟩ := List.map_eq_append_iff.mp h
  obtain ⟨i, rfl, hi⟩ := List.map_eq_singleton_iff.mp hl
  exact ⟨is, i, rfl, hf, hi⟩

theorem length_of_listing {x : Expr Float} {items : List (Located (Item Float))}
    (h : items.map (·.value) = x.postorder) : items.length = x.subtrees.length := by
  rw [postorder_eq_map_root] at h
  simpa using congrArg List.length h

theorem length_of_listings {xs : List (Expr Float)} {items : List (Located (Item Float))}
    (h : items.map (·.value) = postorderOfList xs) : items.length = (subtreesOfList xs).length := by
  rw [postorderOfList_eq_map_root] at h
  simpa using congrArg List.length h

mutual

/-- The items of a tree complete its subtrees and leave the tree on top of the stack. -/
theorem builds_postorder (x : Expr Float) (items : List (Located (Item Float)))
    (h : items.map (·.value) = x.postorder) (hs : x.Saturated)
    (stack : List (Expr Float × Nat)) : Builds stack items x.subtrees (withDepth x :: stack) := by
  match x with
  | literal c =>
    obtain ⟨i, rfl, hi⟩ := List.map_eq_singleton_iff.mp h
    exact Builds.last (by rw [hi]; rfl)
  | unknown =>
    obtain ⟨i, rfl, hi⟩ := List.map_eq_singleton_iff.mp h
    exact Builds.last (by rw [hi]; rfl)
  | negate x =>
    obtain ⟨is, i, rfl, hf, hi⟩ := exists_of_map_eq_snoc h
    have operand := builds_postorder x is hf hs stack
    exact operand.append (Builds.last (by rw [hi]; rfl)) (length_of_listing hf)
  | binary op x y =>
    obtain ⟨is, i, rfl, hf, hi⟩ := exists_of_map_eq_snoc h
    obtain ⟨left, right, rfl, hl, hr⟩ := List.map_eq_append_iff.mp hf
    have first := builds_postorder x left hl hs.1 stack
    have second := builds_postorder y right hr hs.2 (withDepth x :: stack)
    have len := length_of_listing hl
    have len' := length_of_listing hr
    exact (first.append second len).append (Builds.last (by rw [hi]; rfl)) (by simp [len, len'])
  | call f xs =>
    obtain ⟨is, i, rfl, hf, hi⟩ := exists_of_map_eq_snoc h
    have args := builds_postorderOfList xs is hf hs.2 stack
    have last := combine_call f xs stack hs.1
    exact args.append (Builds.last (by rw [hi]; exact last)) (length_of_listings hf)

theorem builds_postorderOfList (xs : List (Expr Float)) (items : List (Located (Item Float)))
    (h : items.map (·.value) = postorderOfList xs) (hs : SaturatedList xs)
    (stack : List (Expr Float × Nat)) :
    Builds stack items (subtreesOfList xs) ((xs.map withDepth).reverse ++ stack) := by
  match xs with
  | [] =>
    obtain rfl := List.map_eq_nil_iff.mp h
    exact Builds.nil stack
  | x :: xs =>
    obtain ⟨first, more, rfl, hf, hm⟩ := List.map_eq_append_iff.mp h
    have head := builds_postorder x first hf hs.1 stack
    have tail := builds_postorderOfList xs more hm hs.2 (withDepth x :: stack)
    simpa [subtreesOfList] using head.append tail (length_of_listing hf)

end

/-- The first `n` of the trees are accepted when `count` items have been read before them. -/
def Accepted (count : Nat) (trees : List (Expr Float)) (n : Nat) : Prop :=
  ∀ j < n, ∀ t, trees[j]? = some t → refusal? (count + j + 1) t = none

theorem Accepted.cons {count n : Nat} {t : Expr Float} {trees : List (Expr Float)}
    (ht : refusal? (count + 1) t = none) (h : Accepted (count + 1) trees n) :
    Accepted count (t :: trees) (n + 1) := by
  intro j hj u hu
  cases j with
  | zero =>
    obtain rfl := Option.some.inj hu
    exact ht
  | succ j =>
    have next := h j (by omega) u hu
    rwa [Nat.add_right_comm count 1 j] at next

/-- Either every tree is accepted, or the first one that is not decides the error. -/
theorem foldlM_accept (items : List (Located (Item Float))) (trees : List (Expr Float))
    (len : items.length = trees.length) (count : Nat) :
    ((items.zip trees).foldlM accept count = .ok (count + items.length) ∧
      Accepted count trees items.length) ∨
    ∃ i item t cause, items[i]? = some item ∧ trees[i]? = some t ∧
      refusal? (count + i + 1) t = some cause ∧ Accepted count trees i ∧
      (items.zip trees).foldlM accept count = .error ⟨item.position, cause⟩ := by
  induction items generalizing trees count with
  | nil =>
    obtain rfl := List.length_eq_zero_iff.mp len.symm
    exact Or.inl ⟨rfl, nofun⟩
  | cons item items ih =>
    match trees, len with
    | t :: trees, len =>
      rw [List.zip_cons_cons, List.foldlM_cons]
      cases ht : refusal? (count + 1) t with
      | some cause =>
        have refused : accept count (item, t) = .error ⟨item.position, cause⟩ := by
          simp only [accept, ht]
        rw [refused]
        exact Or.inr ⟨0, item, t, cause, rfl, rfl, ht, nofun, rfl⟩
      | none =>
        have accepted : accept count (item, t) = .ok (count + 1) := by simp only [accept, ht]
        rw [accepted]
        rcases ih trees (Nat.succ.inj len) (count + 1) with
          ⟨run, all⟩ | ⟨i, item', t', cause, hi, ht', hc, all, run⟩
        · rw [Nat.add_right_comm, Nat.add_assoc] at run
          exact Or.inl ⟨run, all.cons ht⟩
        · rw [Nat.add_right_comm count 1 i] at hc
          exact Or.inr ⟨i + 1, item', t', cause, hi, ht', hc, all.cons ht, run⟩

theorem combine_some_call {f : Builtin} {ts : List (Expr Float)}
    {rest : List (Expr Float × Nat)} {e : Expr Float × Nat}
    (h : combine? (ts.map withDepth) (.call f) = some (e, rest)) :
    f.arity ≤ ts.length ∧ e = withDepth (call f (ts.take f.arity).reverse) ∧
      rest = (ts.drop f.arity).map withDepth := by
  simp only [combine?, ← List.map_take, ← List.map_drop, ← List.map_reverse, foldl_max_depth,
    List.length_map, List.length_reverse] at h
  split at h
  next => simp at h
  next hlen =>
    cases h
    refine ⟨?_, by simp [withDepth, depth, Function.comp_def], rfl⟩
    simp only [List.length_take] at hlen
    omega

/-- Operands that are put together stay in the listing, in front of their operation. -/
theorem combine_some {ts : List (Expr Float)} {rest : List (Expr Float × Nat)} {item : Item Float}
    {e : Expr Float × Nat} (h : combine? (ts.map withDepth) item = some (e, rest))
    (hs : ∀ t ∈ ts, t.Saturated) :
    ∃ x us, e = withDepth x ∧ rest = us.map withDepth ∧ x.Saturated ∧ (∀ u ∈ us, u ∈ ts) ∧
      postorderOfList (x :: us).reverse = postorderOfList ts.reverse ++ [item] := by
  cases item with
  | value c =>
    cases h
    exact ⟨literal c, ts, rfl, rfl, trivial, fun _ h => h, by
      simp [postorderOfList_append, postorder]⟩
  | unknown =>
    cases h
    exact ⟨unknown, ts, rfl, rfl, trivial, fun _ h => h, by
      simp [postorderOfList_append, postorder]⟩
  | negate =>
    match ts, h with
    | x :: us, h =>
      cases h
      exact ⟨negate x, us, by simp [withDepth, depth], rfl, hs x (by simp),
        fun _ h => List.mem_cons_of_mem _ h, by simp [postorderOfList_append, postorder]⟩
  | binary op =>
    match ts, h with
    | y :: x :: us, h =>
      cases h
      exact ⟨binary op x y, us, by simp [withDepth, depth], rfl,
        ⟨hs x (by simp), hs y (by simp)⟩, fun _ h => by simp [h], by
          simp [postorderOfList_append, postorderOfList, postorder]⟩
  | call f =>
    obtain ⟨count, rfl, rfl⟩ := combine_some_call h
    have split : postorderOfList (ts.take f.arity ++ ts.drop f.arity).reverse =
        postorderOfList (ts.drop f.arity).reverse ++
          postorderOfList (ts.take f.arity).reverse := by
      rw [List.reverse_append, postorderOfList_append]
    rw [List.take_append_drop] at split
    refine ⟨call f (ts.take f.arity).reverse, ts.drop f.arity, rfl, rfl,
      ⟨by simp [Nat.min_eq_left count], ?_⟩, fun _ h => List.mem_of_mem_drop h, ?_⟩
    · exact saturatedList_iff.mpr fun x hx =>
        hs x (List.mem_of_mem_take (List.mem_reverse.mp hx))
    · rw [List.reverse_cons, postorderOfList_append, postorderOfList_singleton, split]
      simp [postorder]

/-- What the items read so far have built, the latest tree first. -/
structure Holds (b : Builder) (ts : List (Expr Float)) (read : List (Item Float)) : Prop where
  stack_eq : b.stack = ts.map withDepth
  listing : postorderOfList ts.reverse = read
  saturated : ∀ t ∈ ts, t.Saturated
  depth_le : ∀ t ∈ ts, t.depth ≤ maxDepth
  count_eq : b.count = read.length
  count_le : b.count ≤ maxSize

theorem holds_nil : Holds ⟨[], 0⟩ [] [] :=
  ⟨rfl, rfl, by simp, by simp, rfl, Nat.zero_le _⟩

theorem Holds.step {b b' : Builder} {ts : List (Expr Float)} {read : List (Item Float)}
    {item : Located (Item Float)} (h : Holds b ts read) (hr : step b item = .ok b') :
    ∃ ts', Holds b' ts' (read ++ [item.value]) := by
  unfold Builder.step at hr
  rw [h.stack_eq] at hr
  split at hr
  next => simp at hr
  next hcount =>
    split at hr
    next => simp at hr
    next x depth rest hc =>
      split at hr
      next => simp at hr
      next hdepth =>
        cases hr
        obtain ⟨t, us, ht, rfl, hsat, hsub, hlist⟩ := combine_some hc h.saturated
        cases ht
        refine ⟨x :: us, rfl, hlist.trans (by rw [h.listing]), ?_, ?_, ?_, Nat.not_lt.mp hcount⟩
        · exact List.forall_mem_cons.mpr ⟨hsat, fun u hu => h.saturated u (hsub u hu)⟩
        · exact List.forall_mem_cons.mpr ⟨by omega, fun u hu => h.depth_le u (hsub u hu)⟩
        · simp [h.count_eq]

theorem Holds.foldlM {b b' : Builder} {ts : List (Expr Float)} {read : List (Item Float)}
    {items : List (Located (Item Float))} (h : Holds b ts read)
    (hr : items.foldlM Builder.step b = .ok b') :
    ∃ ts', Holds b' ts' (read ++ items.map (·.value)) := by
  induction items generalizing b ts read with
  | nil => cases hr; exact ⟨ts, by simpa using h⟩
  | cons i items ih =>
    rw [List.foldlM_cons] at hr
    cases hs : Builder.step b i with
    | error e => simp [hs, bind, Except.bind] at hr
    | ok b₁ =>
      rw [hs] at hr
      obtain ⟨ts₁, h₁⟩ := h.step hs
      obtain ⟨ts', h'⟩ := ih h₁ hr
      exact ⟨ts', by simpa using h'⟩

end Builder

/-- The listing of a tree gives the tree, if all its subtrees are accepted. -/
theorem ofPostfix_listing {items : List (Located (Item Float))} {x : Expr Float}
    (h : items.map (·.value) = x.postorder) (hs : x.Saturated) :
    ofPostfix items =
      ((items.zip x.subtrees).foldlM Builder.accept 0).map fun _ => x := by
  have built := Builder.builds_postorder x items h hs [] 0
  rw [ofPostfix, built]
  cases (items.zip x.subtrees).foldlM Builder.accept 0 <;> rfl

/-- Building a tree undoes its listing, within the limits on levels and on nodes. -/
theorem ofPostfix_eq_ok {items : List (Located (Item Float))} {x : Expr Float} :
    ofPostfix items = .ok x ↔ items.map (·.value) = x.postorder ∧ x.Saturated ∧
      x.depth ≤ maxDepth ∧ items.length ≤ maxSize := by
  constructor
  · intro h
    unfold ofPostfix at h
    cases hr : items.foldlM Builder.step ⟨[], 0⟩ with
    | error e => simp [hr, bind, Except.bind] at h
    | ok b =>
      obtain ⟨ts, hb⟩ := Builder.holds_nil.foldlM hr
      rw [hr] at h
      simp only [bind, Except.bind, hb.stack_eq] at h
      match ts, hb, h with
      | [t], hb, h =>
        cases h
        have count := hb.count_eq
        have bound := hb.count_le
        have listing := hb.listing
        simp only [List.nil_append, List.length_map] at count
        refine ⟨by simpa using listing.symm, hb.saturated _ (by simp), hb.depth_le _ (by simp), ?_⟩
        omega
  · rintro ⟨hi, hs, hd, hc⟩
    have len := Builder.length_of_listing hi
    rw [ofPostfix_listing hi hs]
    rcases Builder.foldlM_accept items x.subtrees len 0 with
      ⟨accepted, -⟩ | ⟨i, item, t, cause, hitem, ht, refused, -, -⟩
    · rw [accepted]
      rfl
    · have rank := (List.getElem?_eq_some_iff.mp hitem).1
      have depth := depth_le_of_mem_subtrees x (List.mem_of_getElem? ht)
      have none := Builder.refusal_eq_none_iff.mpr
        (⟨by omega, by omega⟩ : 0 + i + 1 ≤ maxSize ∧ t.depth ≤ maxDepth)
      rw [none] at refused
      cases refused

end Argand.Expr
