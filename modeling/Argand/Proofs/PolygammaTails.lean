import Argand.Proofs.PolygammaRecurrence

open scoped Nat

namespace Argand.Complex

open Exact

variable {K : Type} [Field K] [LinearOrder K] [FloorRing K]

section tails

variable {A : Type} [CommRing A] [Algebra K A]

/-- The tail of order `n` from index `i` on, sign aside. -/
def tailSum (n : Nat) (w : A) : Nat → List K → A
  | _, [] => 0
  | i, b :: rest => tailCoefficient n i b • w ^ (n + 2 * (i + 1)) + tailSum n w (i + 1) rest

theorem map_tailSum {B : Type} [CommRing B] [Algebra K B] (f : A →ₐ[K] B) (n i : Nat) (w : A)
    (coefficients : List K) :
    f (tailSum n w i coefficients) = tailSum n (f w) i coefficients := by
  induction coefficients generalizing i with
  | nil => exact map_zero f
  | cons b rest ih => rw [tailSum, tailSum, map_add, map_smul, map_pow, ih]

section closed

variable [HMul A K A] (scale : ∀ (a : A) (c : K), a * c = c • a)
include scale

/-- Whether the terms are added or taken off, the loop does it with their sum. -/
theorem foldTail_eq {op : A → A → A} (op_zero : ∀ a, op a 0 = a)
    (op_op : ∀ a b c, op (op a b) c = op a (b + c)) (n i : Nat) (w sum : A)
    (coefficients : List K) :
    foldTail n op (w * w) i (w ^ (n + 2 * i)) sum coefficients =
      op sum (tailSum n w i coefficients) := by
  induction coefficients generalizing i sum with
  | nil => exact (op_zero sum).symm
  | cons b rest ih =>
    have power : w ^ (n + 2 * i) * (w * w) = w ^ (n + 2 * (i + 1)) := by ring
    rw [foldTail, power, scale, ih, tailSum, op_op]

theorem digammaTail_eq (log w : A) : digammaTail (R := K) log w =
    log - (1 / 2 : K) • w - tailSum (K := K) 0 w 0 bernoulliNumbers := by
  have half : (0.5 : K) = 1 / 2 := by norm_num
  have start : (1 : A) = w ^ (0 + 2 * 0) := (pow_zero w).symm
  rw [digammaTail, scale, half, start, foldTail_eq scale sub_zero sub_sub]

theorem polygammaTail_eq (n : Nat) (w : A) : polygammaTail (R := K) n w =
    (-(-1) ^ n : K) • (((n - 1)! : K) • w ^ n + (n ! / 2 : K) • w ^ (n + 1) +
      tailSum (K := K) n w 0 bernoulliNumbers) := by
  have two : (2.0 : K) = 2 := by norm_num
  have base : mulPow 1 w n = w ^ n := (mulPow_eq 1 w n).trans (one_mul _)
  have closed (sum : A) : foldTail n (· + ·) (w * w) 0 (w ^ n) sum (bernoulliNumbers (R := K)) =
      sum + tailSum (K := K) n w 0 bernoulliNumbers :=
    foldTail_eq scale add_zero add_assoc n 0 w sum _
  simp only [polygammaTail, base, scale, closed, alternatingSign_eq, factorial_eq, two, pow_succ]

end closed

/-! Below, `w` is the inverse of a variable: a derivation takes it to its square with the sign
changed. -/

variable {D : Derivation K A A} {log w : A}

theorem derivation_pow (inverse : D w = -w ^ 2) (m : Nat) :
    D (w ^ m) = -((m : K) • w ^ (m + 1)) := by
  cases m with
  | zero => simp
  | succ m =>
    have power : w ^ m * w ^ 2 = w ^ (m + 1 + 1) := by ring
    rw [Derivation.leibniz_pow, inverse, Nat.add_sub_cancel, Nat.cast_smul_eq_nsmul, smul_neg,
      smul_eq_mul, power, smul_neg]

variable [IsStrictOrderedRing K]

/-- A coefficient of the next order makes up for the exponent of its power. -/
theorem tailCoefficient_succ (n i : Nat) (b : K) :
    tailCoefficient (n + 1) i b = tailCoefficient n i b * ((n + 2 * (i + 1) : ℕ) : K) := by
  rw [tailCoefficient, if_neg n.succ_ne_zero, Nat.add_sub_cancel]
  cases n with
  | zero =>
    have ne : ((2 * (i + 1) : ℕ) : K) ≠ 0 := by positivity
    rw [tailCoefficient, if_pos rfl, Nat.zero_add, div_mul_cancel₀ b ne]
    exact mul_one b
  | succ n =>
    have last : 2 * (i + 1) + 1 + n = n + 1 + 2 * (i + 1) := by ring
    rw [tailCoefficient, if_neg n.succ_ne_zero, Nat.add_sub_cancel, risingProduct_succ, last,
      mul_assoc]

theorem derivation_tailSum (inverse : D w = -w ^ 2) (n i : Nat) (coefficients : List K) :
    D (tailSum n w i coefficients) = -tailSum (n + 1) w i coefficients := by
  induction coefficients generalizing i with
  | nil => exact D.map_zero.trans neg_zero.symm
  | cons b rest ih =>
    have power : n + 2 * (i + 1) + 1 = n + 1 + 2 * (i + 1) := by ring
    rw [tailSum, tailSum, map_add, D.map_smul, derivation_pow inverse, ih, tailCoefficient_succ,
      power, mul_smul, smul_neg, neg_add]

variable [HMul A K A] (scale : ∀ (a : A) (c : K), a * c = c • a)
include scale

theorem derivation_digammaTail (logarithm : D log = w) (inverse : D w = -w ^ 2) :
    D (digammaTail (R := K) log w) = polygammaTail (R := K) 1 w := by
  rw [digammaTail_eq scale, polygammaTail_eq scale, map_sub, map_sub, D.map_smul, logarithm,
    inverse, derivation_tailSum inverse]
  simp

theorem derivation_polygammaTail (inverse : D w = -w ^ 2) (n : Nat) :
    D (polygammaTail (R := K) (n + 1) w) = polygammaTail (R := K) (n + 2) w := by
  have leading : (n ! : K) * ((n + 1 : ℕ) : K) = ((n + 1)! : K) := by
    rw [mul_comm, ← Nat.cast_mul, Nat.factorial_succ]
  have second : ((n + 1)! / 2 : K) * ((n + 1 + 1 : ℕ) : K) = ((n + 2)! / 2 : K) := by
    rw [div_mul_eq_mul_div, mul_comm, ← Nat.cast_mul, Nat.factorial_succ (n + 1)]
  have sign : (-(-1) ^ (n + 2) : K) = (-1) ^ (n + 1) := by ring
  rw [polygammaTail_eq scale, polygammaTail_eq scale, D.map_smul, map_add, map_add, D.map_smul,
    D.map_smul, derivation_pow inverse, derivation_pow inverse, derivation_tailSum inverse,
    smul_neg, smul_neg, smul_smul, smul_smul, Nat.add_sub_cancel, leading, second, sign,
    ← neg_add, ← neg_add, smul_neg, neg_smul, neg_neg]
  rfl

end tails

end Argand.Complex
