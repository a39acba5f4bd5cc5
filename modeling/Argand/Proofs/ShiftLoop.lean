import Argand.Proofs.OneReflection
import Argand.Complex.Polygamma

namespace Argand.Machine

variable {x : Float} {a b : ℤ} {n : Nat}

/-- A step of one keeps its distance to whole numbers: it may be rounded, but not across one. -/
theorem Within.step (h : Within a b x) (ha : (a + 1).natAbs < 2 ^ 53)
    (hb : (b + 1).natAbs < 2 ^ 53) : Within (a + 1 : ℤ) (b + 1 : ℤ) (x + 1) := by
  have one : Within 1 1 (1 : Float) := ⟨rfl, toRat_one.ge, toRat_one.le⟩
  have sum := h.add one (by exact_mod_cast storable_intCast ha)
    (by exact_mod_cast storable_intCast hb)
  exact_mod_cast sum

/-- The numbers that the steps lead through. -/
def steps (x : Float) (i : Nat) : Float := (· + 1)^[i] x

end Argand.Machine

namespace Argand.Complex

open Machine
open Float.Model (Format)

variable {x : Float} {n : Nat}

/-- The real part from which on an order has its expansion. -/
def threshold (n : Nat) : Float := 10.0 + (n : Float)

section turns

variable {R : Type} [Scalar R] {z acc : Complex R} {limit : R}

def shift (n : Nat) (state : Complex R × Complex R) : Complex R × Complex R :=
  (state.1 + (1 : R), state.2 - shiftTerm n state.1)

end turns

variable {z : Complex Float}

end Argand.Complex
