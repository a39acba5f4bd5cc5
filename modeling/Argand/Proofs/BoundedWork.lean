import Argand.Proofs.CheckedIntegers
import Argand.Proofs.ShiftLoop
import Argand.Builtin.Apply

namespace Argand.Complex

open Machine

variable [Elementary Float]

end Argand.Complex
