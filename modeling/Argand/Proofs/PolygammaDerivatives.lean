import Argand.Proofs.PolygammaTails

namespace Argand.Complex

open Exact MvPolynomial

/-- The symbols of formal expressions in one variable. -/
inductive Symbol
  | log
  | inverse

variable {K : Type} [Field K]

/-- The formal expressions in the logarithm of a variable and the powers of its inverse. -/
abbrev Expansion (K : Type) [Field K] := MvPolynomial Symbol K

noncomputable section

/-- The logarithm has the inverse for its derivative, and the inverse its square with the sign
changed. -/
def Symbol.derivative : Symbol → Expansion K
  | log => X inverse
  | inverse => -X inverse ^ 2

namespace Expansion

scoped instance : HMul (Expansion K) K (Expansion K) := ⟨fun p c => c • p⟩

theorem mul_eq_smul (p : Expansion K) (c : K) : p * c = c • p := rfl

/-- The derivative by the variable. -/
def derivative : Derivation K (Expansion K) (Expansion K) := mkDerivation K Symbol.derivative

theorem derivative_log : derivative (X .log : Expansion K) = X .inverse :=
  mkDerivation_X K _ _

theorem derivative_inverse : derivative (X .inverse : Expansion K) = -X .inverse ^ 2 :=
  mkDerivation_X K _ _

variable [LinearOrder K] [FloorRing K]

/-- The asymptotic expansion of order `n`, built from symbols. -/
def asymptotic (n : Nat) : Expansion K :=
  if n = 0 then digammaTail (R := K) (X .log) (X .inverse)
  else polygammaTail (R := K) n (X .inverse)

/-- The term by which neighbouring values differ, built from symbols. -/
def shiftTerm (n : Nat) : Expansion K :=
  (X Symbol.inverse ^ (n + 1) : Expansion K) * (alternatingSign n * factorial n : K)

theorem derivative_shiftTerm (n : Nat) :
    derivative (shiftTerm n : Expansion K) = shiftTerm (n + 1) := by
  have factor : (alternatingSign (n + 1) * factorial (n + 1) : K) =
      -(alternatingSign n * factorial n * ((n + 1 : ℕ) : K)) := by
    rw [alternatingSign_eq, alternatingSign_eq, factorial_eq, factorial_eq, Nat.factorial_succ]
    push_cast
    ring
  rw [shiftTerm, shiftTerm, mul_eq_smul, mul_eq_smul, derivative.map_smul,
    derivation_pow derivative_inverse, factor, neg_smul, smul_neg, smul_smul]

variable [IsStrictOrderedRing K]

theorem derivative_asymptotic (n : Nat) :
    derivative (asymptotic n : Expansion K) = asymptotic (n + 1) := by
  cases n with
  | zero =>
    rw [asymptotic, if_pos rfl, asymptotic, if_neg (Nat.succ_ne_zero 0)]
    exact derivation_digammaTail mul_eq_smul derivative_log derivative_inverse
  | succ n =>
    rw [asymptotic, if_neg n.succ_ne_zero, asymptotic, if_neg (n + 1).succ_ne_zero]
    exact derivation_polygammaTail mul_eq_smul derivative_inverse n

end Expansion

/-! The values of formal expressions. -/

variable [LinearOrder K] [FloorRing K]

/-- The points as an algebra over the real numbers. -/
scoped instance algebra : Algebra K (Complex K) := realAxis.toAlgebra

theorem mul_real_eq_smul (z : Complex K) (x : K) : z * x = x • z := by
  rw [mul_real, mul_comm, Algebra.smul_def]
  rfl

/-- The value of a symbol at a point with the given logarithm. -/
def Symbol.value (log z : Complex K) : Symbol → Complex K
  | .log => log
  | .inverse => z.inverse

namespace Expansion

/-- The value of an expression at a point with the given logarithm. -/
def eval (log z : Complex K) : Expansion K →ₐ[K] Complex K := aeval (Symbol.value log z)

theorem eval_log (log z : Complex K) : eval log z (X .log) = log :=
  aeval_X _ _

theorem eval_inverse (log z : Complex K) : eval log z (X .inverse) = z.inverse :=
  aeval_X _ _

theorem eval_asymptotic [Elementary K] (n : Nat) (z : Complex K) :
    eval z.log z (asymptotic n) = Complex.asymptotic n z := by
  rw [asymptotic, Complex.asymptotic]
  split
  next =>
    rw [digammaTail_eq mul_eq_smul, digammaTail_eq mul_real_eq_smul, map_sub, map_sub, map_smul,
      map_tailSum, eval_log, eval_inverse]
  next =>
    rw [polygammaTail_eq mul_eq_smul, polygammaTail_eq mul_real_eq_smul, map_smul, map_add, map_add,
      map_smul, map_smul, map_pow, map_pow, map_tailSum, eval_inverse]

theorem eval_shiftTerm [IsStrictOrderedRing K] (n : Nat) (log z : Complex K) :
    eval log z (shiftTerm n) = Complex.shiftTerm n z := by
  rw [shiftTerm, mul_eq_smul, map_smul, map_pow, eval_inverse, Complex.shiftTerm, mul_real_eq_smul,
    powInt_neg_succ, ← inv_pow]
  rfl

/-- The expansions of all orders are the successive derivatives of one formal expression, and so are
the terms of the steps. Their values at a point are what is computed there. -/
theorem successive_derivatives [IsStrictOrderedRing K] (n : Nat) :
    derivative (asymptotic n : Expansion K) = asymptotic (n + 1) ∧
      derivative (shiftTerm n : Expansion K) = shiftTerm (n + 1) ∧
      ∀ [Elementary K] (z : Complex K),
        eval z.log z (asymptotic n) = Complex.asymptotic n z ∧
        eval z.log z (shiftTerm n) = Complex.shiftTerm n z :=
  ⟨derivative_asymptotic n, derivative_shiftTerm n, fun z =>
    ⟨eval_asymptotic n z, eval_shiftTerm n z.log z⟩⟩

/-- The first two derivatives, from the expansion with the logarithm on. -/
theorem successive_derivatives_second :
    derivative (derivative (asymptotic 0 : Expansion ℚ)) = asymptotic 2 ∧
      derivative (derivative (shiftTerm 0 : Expansion ℚ)) = shiftTerm 2 := by
  have first := successive_derivatives (K := ℚ) 0
  have second := successive_derivatives (K := ℚ) 1
  rw [first.1, first.2.1]
  exact ⟨second.1, second.2.1⟩

end Expansion

end

end Argand.Complex
