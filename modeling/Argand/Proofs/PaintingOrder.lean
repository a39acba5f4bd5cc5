import Argand.Preview
import Mathlib.Algebra.Ring.Nat
import Mathlib.Data.List.Basic

namespace Argand.Preview

/-- The total order of all bit patterns: signed words, with the bits of the magnitude reversed below
zero. -/
def totalOrder (x : Float32) : Int :=
  let bits := x.toBits.toBitVec
  (bits ^^^ (bits.sshiftRight 31 >>> 1)).toInt

theorem xor_magnitude {n : Nat} (h : n < 2 ^ 31) : n ^^^ (2 ^ 31 - 1) = 2 ^ 31 - (n + 1) := by
  apply Nat.eq_of_testBit_eq
  intro i
  rw [Nat.testBit_xor, Nat.testBit_two_pow_sub_one, Nat.testBit_two_pow_sub_succ h]
  by_cases hi : i < 31
  · simp [hi]
  · have beyond : n.testBit i = false :=
      Nat.testBit_lt_two_pow (Nat.lt_of_lt_of_le h (Nat.pow_le_pow_right (by decide) (by omega)))
    simp [hi, beyond]

/-- Reversing the bits of the magnitude leaves the sign. -/
theorem xor_magnitude_of_negative {n : Nat} (large : 2 ^ 31 ≤ n) (h : n < 2 ^ 32) :
    n ^^^ (2 ^ 31 - 1) = 2 ^ 32 + 2 ^ 31 - 1 - n := by
  have parts := Nat.div_add_mod (n ^^^ (2 ^ 31 - 1)) (2 ^ 31)
  have top : n / 2 ^ 31 = 1 := by omega
  have low : n % 2 ^ 31 ^^^ (2 ^ 31 - 1) = 2 ^ 31 - (n % 2 ^ 31 + 1) :=
    xor_magnitude (Nat.mod_lt _ (by decide))
  have maskTop : (2 ^ 31 - 1) / 2 ^ 31 = 0 := rfl
  have maskLow : (2 ^ 31 - 1) % 2 ^ 31 = 2 ^ 31 - 1 := rfl
  rw [Nat.xor_div_two_pow, Nat.xor_mod_two_pow, top, maskTop, maskLow, low, Nat.xor_zero] at parts
  omega

theorem sign_mask {bits : BitVec 32} :
    bits.sshiftRight 31 >>> 1 = if bits.msb then BitVec.ofNat 32 (2 ^ 31 - 1) else 0 := by
  have bound := bits.isLt
  cases negative : bits.msb with
  | false =>
    have small : bits.toNat < 2 ^ 31 := by simpa [BitVec.msb_eq_decide] using negative
    rw [BitVec.sshiftRight_eq_of_msb_false negative]
    apply BitVec.eq_of_toNat_eq
    simp [Nat.shiftRight_eq_div_pow]
    omega
  | true =>
    have large : 2 ^ 31 ≤ bits.toNat := by simpa [BitVec.msb_eq_decide] using negative
    rw [BitVec.sshiftRight_eq_of_msb_true negative]
    apply BitVec.eq_of_toNat_eq
    simp [Nat.shiftRight_eq_div_pow]
    omega

theorem orderKey_eq_totalOrder (x : Float32) : orderKey x = totalOrder x := by
  have key : orderKey x = if x.toBits.toBitVec.toNat < 0x80000000 then
      (x.toBits.toBitVec.toNat : Int) else 0x7fffffff - (x.toBits.toBitVec.toNat : Int) := rfl
  rw [key]
  unfold totalOrder
  generalize x.toBits.toBitVec = bits
  have bound := bits.isLt
  dsimp only
  rw [sign_mask, BitVec.msb_eq_decide]
  by_cases small : bits.toNat < 0x80000000
  · have positive : decide (2 ^ (32 - 1) ≤ bits.toNat) = false := by simpa using small
    rw [if_pos small, positive, if_neg Bool.false_ne_true, BitVec.ofNat_eq_ofNat,
      BitVec.xor_zero, BitVec.toInt_eq_toNat_cond, if_pos (by omega)]
  · have negative : decide (2 ^ (32 - 1) ≤ bits.toNat) = true := by simpa using small
    have flipped : (bits ^^^ BitVec.ofNat 32 (2 ^ 31 - 1)).toNat =
        2 ^ 32 + 2 ^ 31 - 1 - bits.toNat := by
      rw [BitVec.toNat_xor]
      exact xor_magnitude_of_negative (by omega) bound
    rw [if_neg small, negative, if_pos rfl, BitVec.toInt_eq_toNat_cond, flipped,
      if_neg (by omega)]
    omega

variable {α : Type} {l : List α} {key : α → Int} {rank : α → Nat}

theorem lt_or_eq_of_zipIdxLE {a b : α × Nat}
    (h : List.zipIdxLE (fun x y => decide (key x ≤ key y)) a b = true) :
    key a.1 < key b.1 ∨ key a.1 = key b.1 ∧ a.2 ≤ b.2 := by
  simp only [List.zipIdxLE] at h
  split at h
  next smaller =>
    rw [decide_eq_true_eq] at smaller
    split at h
    next larger =>
      rw [decide_eq_true_eq] at h larger
      exact Or.inr ⟨Int.le_antisymm smaller larger, h⟩
    next notLarger =>
      rw [decide_eq_true_eq, Int.not_le] at notLarger
      exact Or.inl notLarger
  next => cases h

/-- A stable sort keeps the order of equal keys, which the rank tells here. -/
theorem pairwise_mergeSort_of_rank (h : l.Pairwise (rank · < rank ·)) :
    (l.mergeSort fun a b => key a ≤ key b).Pairwise fun a b =>
      key a < key b ∨ key a = key b ∧ rank a < rank b := by
  have trans : ∀ a b c : α, decide (key a ≤ key b) = true → decide (key b ≤ key c) = true →
      decide (key a ≤ key c) = true := by
    simp only [decide_eq_true_eq]
    exact fun _ _ _ => Int.le_trans
  have total : ∀ a b : α, (decide (key a ≤ key b) || decide (key b ≤ key a)) = true := by
    intro a b
    simpa using Int.le_total (key a) (key b)
  -- The sort of the entries with their indices orders equal keys by index.
  rw [← List.mergeSort_zipIdx, List.pairwise_map]
  have perm := List.mergeSort_perm l.zipIdx (List.zipIdxLE fun a b => decide (key a ≤ key b))
  have sorted := List.pairwise_mergeSort (List.zipIdxLE_trans trans) (List.zipIdxLE_total total)
    l.zipIdx
  have distinct : l.zipIdx.Pairwise fun a b => a.2 ≠ b.2 := by
    rw [← List.pairwise_map, List.zipIdx_map_snd]
    exact List.nodup_range'
  have distinct' := (perm.pairwise_iff fun ne => Ne.symm ne).mpr distinct
  have entry {c : α × Nat} (hc : c ∈ l.zipIdx.mergeSort _) : l[c.2]? = some c.1 :=
    List.mem_zipIdx_iff_getElem?.mp (perm.mem_iff.mp hc)
  refine (sorted.and distinct').imp_of_mem fun {a b} ha hb ⟨le, ne⟩ => ?_
  refine (lt_or_eq_of_zipIdxLE le).imp_right fun ⟨same, order⟩ => ⟨same, ?_⟩
  obtain ⟨hi, hx⟩ := List.getElem?_eq_some_iff.mp (entry ha)
  obtain ⟨hj, hy⟩ := List.getElem?_eq_some_iff.mp (entry hb)
  have before := List.pairwise_iff_getElem.mp h a.2 b.2 hi hj (Nat.lt_of_le_of_ne order ne)
  rwa [hx, hy] at before

end Argand.Preview
