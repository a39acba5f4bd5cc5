import Argand.Colour
import Argand.Plot.Evaluate

namespace Argand

/-- What the window keeps from one pass to the next. -/
structure Plotter where
  /-- The text in the formula field. -/
  entry : String
  /-- The expression that is plotted: the identity if the last formula could not be read. -/
  tree : Expr Float
  parameters : Plot.Parameters
  palette : Palette
  output : Plot.Surface Float32
  /-- The message of the last formula, empty if it could be read. -/
  error : String
  explanation : Explanation
  azimuth : Float32
  elevation : Float32
  /-- The formula field takes the focus in the next pass. -/
  focusEntry : Bool
  /-- The surface is swept anew in the next pass. -/
  needsSweep : Bool

namespace Plotter

/-- A full turn in radians. -/
def fullTurn : Float32 := 6.2831855

def maxElevation : Float32 := 1.5

/-- A finer grid takes longer than a pass may. -/
def maxResolution : Nat := 40

/-- The plotter when the window opens. -/
def initial : Plotter where
  entry := "z"
  tree := Expr.identity
  parameters := .default
  palette := .coloured
  output := .empty
  error := ""
  explanation := .empty
  azimuth := 0.6
  elevation := 0.5
  focusEntry := true
  needsSweep := true

def reset (_ : Plotter) : Plotter := initial

/-- Empties the formula field; the surface stays. -/
def clearEntry (p : Plotter) : Plotter := { p with entry := "", focusEntry := true }

/-- A formula has been read. -/
def accept (p : Plotter) (tree : Expr Float) (explanation : Explanation) : Plotter :=
  { p with tree := tree, explanation := explanation, error := "", needsSweep := true }

/-- A formula could not be read; the identity takes its place. -/
def reject (p : Plotter) (message : String) : Plotter :=
  { p with tree := Expr.identity, explanation := .empty, error := message, needsSweep := true }

def setOutput (p : Plotter) (s : Plot.Surface Float32) : Plotter :=
  { p with output := s, needsSweep := false }

/-- Only a change asks for a new sweep. -/
def setParameters (p : Plotter) (parameters : Plot.Parameters) : Plotter :=
  if p.parameters = parameters then p
  else { p with parameters := parameters, needsSweep := true }

def setMode (p : Plotter) (mode : Plot.Mode) : Plotter :=
  p.setParameters { p.parameters with mode := mode }

def setLogHeight (p : Plotter) (logHeight : Bool) : Plotter :=
  p.setParameters { p.parameters with logHeight := logHeight }

/-- The nearest resolution that the window allows. -/
def setResolution (p : Plotter) (resolution : Nat) : Plotter :=
  p.setParameters { p.parameters with resolution := max 1 (min resolution maxResolution) }

def setDefaultResolution (p : Plotter) : Plotter := p.setResolution Plot.defaultResolution

/-- Colours are computed while painting, without a new sweep. -/
def setPalette (p : Plotter) (palette : Palette) : Plotter := { p with palette := palette }

/-- Turns the camera. The tilt is bounded, so that the surface is never upside down. -/
def turn (p : Plotter) (azimuth elevation : Float32) : Plotter :=
  { p with
    azimuth := Scalar.remEuclid (p.azimuth + azimuth) fullTurn
    elevation := Scalar.clamp (-maxElevation) maxElevation (p.elevation + elevation) }

/-- Reads the formula in the field, without the blanks around it. -/
def applyFormula (p : Plotter) : Plotter :=
  match Formula.compile (String.ofList (trimBlank p.entry.toList)) with
  | .ok (tree, explanation) => p.accept tree explanation
  | .error e => p.reject e.message

/-- The bits of a word on a desktop. -/
def wordSize : Nat := 64

/-- Sweeps the expression that is kept. If the configuration is refused, the old surface stays. A
grid that cannot be reserved would end the program; none is that fine here. -/
def sweepAgain (p : Plotter) : Plotter :=
  match Plot.sweepMachine wordSize p.parameters p.tree with
  | .ok s => p.setOutput s
  | .error (.refused _) => { p with needsSweep := false }
  | .error .capacityOverflow => p

end Plotter
end Argand
