import Argand.Elementary.Machine
import Argand.Formula
import Argand.Plot.Surface
import Argand.Scalar.Machine

namespace Argand.Plot

/-- Why there is no plot of a formula. -/
inductive PlotError
  | reading (e : ReadError)
  | configuration (e : ConfigurationError)
deriving DecidableEq

namespace PlotError

def message : PlotError → String
  | reading e => "lecture: " ++ e.message
  | configuration e => "configuration: " ++ e.message

/-- The place in the formula that is at fault. -/
def position? : PlotError → Option Nat
  | reading e => some e.position
  | configuration _ => none

end PlotError

/-- The sweep with machine numbers, stored in single precision. -/
def sweepMachine (w : Nat) (p : Parameters) (x : Expr Float) :
    Except (Failure ConfigurationError) (Surface Float32) := sweep w p x

def refuseConfiguration (e : ConfigurationError) : Failure PlotError := .refused (.configuration e)

def refuseReading (e : ReadError) : Failure PlotError := .refused (.reading e)

/-- The configuration is looked at before the formula. -/
def evaluate (w : Nat) (source : String) (p : Parameters) :
    Except (Failure PlotError) (Surface Float32) := do
  let _ ← (Grid.ofResolution p.resolution).mapError refuseConfiguration
  let x ← (Formula.parse source variableName).mapError refuseReading
  (sweepMachine w p x).mapError (.map .configuration)

/-- A formula that cannot be read is replaced by the identity, and the error is told beside. -/
def evaluateOrIdentity (w : Nat) (source : String) (p : Parameters) :
    Except (Failure PlotError) (Surface Float32 × Option ReadError) := do
  let _ ← (Grid.ofResolution p.resolution).mapError refuseConfiguration
  let (x, error) := match Formula.parse source variableName with
    | .ok x => (x, none)
    | .error e => (Expr.identity, some e)
  let s ← (sweepMachine w p x).mapError (.map .configuration)
  return (s, error)

/-- The plot for a caller that knows a mode by its code: a page. -/
def evaluateCoded (w : Nat) (source : String) (resolution modeCode : Nat) (logHeight : Bool) :
    Except (Failure PlotError) (Surface Float32) := do
  let mode ← (Mode.ofCode modeCode).mapError refuseConfiguration
  evaluate w source ⟨resolution, mode, logHeight⟩

/-- The bits of a word on a page. -/
def pageWordSize : Nat := 32

end Argand.Plot
