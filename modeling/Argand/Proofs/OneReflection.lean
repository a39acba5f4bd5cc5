import Argand.Proofs.MachineOrder
import Argand.Proofs.ZetaPole

namespace Argand

/-- Started on an argument, a computation that goes on to the next one while the condition holds
goes on this number of times. Nothing bounds the number. -/
def GoesOn {A : Type} (condition : A → Prop) (next : A → A) (start : A) (turns : Nat) : Prop :=
  (∀ i < turns, condition (next^[i] start)) ∧ ¬ condition (next^[turns] start)

section going

variable {A : Type} {condition : A → Prop} {next : A → A} {start : A} {turns : Nat}

theorem GoesOn.zero (h : ¬ condition start) : GoesOn condition next start 0 :=
  ⟨fun i hi => absurd hi (Nat.not_lt_zero i), h⟩

theorem GoesOn.succ (h : condition start) (rest : GoesOn condition next (next start) turns) :
    GoesOn condition next start (turns + 1) := by
  refine ⟨fun i hi => ?_, rest.2⟩
  cases i with
  | zero => exact h
  | succ i => exact rest.1 i (by omega)

end going

namespace Machine

variable {c x : Float}

end Machine

namespace Complex

open Machine

variable {z s : Complex Float}

section branches

variable {R : Type} [Scalar R] [Elementary R] {z : Complex R}

end branches

section equations

variable [Elementary Float]

end equations

end Complex

end Argand
