import Argand.Proofs.EulerTransform
import Argand.Complex.Polygamma

namespace Argand

/-! Integers as words of 32 bits hold them, the narrowest in use. An integer outside its word has no
result, and neither has a difference of natural numbers that is negative. -/

section words

variable {m n : Nat} {x : Int}

end words

namespace Complex

section power

variable {R : Type} [Scalar R]

variable [Elementary R]

end power

section polygamma

variable {R : Type} [Scalar R] {n : Nat} {z : Complex R}

variable [Elementary R]

end polygamma

section zeta

variable {R : Type} [Scalar R] {n : Nat} {qs : List (Complex R)}

variable [Elementary R]

end zeta

end Complex
end Argand
