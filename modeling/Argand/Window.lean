import Argand.Preview
import Argand.Window.Plotter

namespace Argand

/-- The places of the window that can be clicked. -/
inductive Button
  | plot
  | clear
  | clearAll
  | mode (m : Plot.Mode)
  | palette (p : Palette)
  | logHeight
  | defaultResolution
  | explanation
deriving DecidableEq

def Button.label : Button → String
  | plot => "Tracer"
  | clear => "C"
  | clearAll => "AC"
  | mode m => m.label
  | palette p => p.label
  | logHeight => "hauteur log"
  | defaultResolution => "↺"
  | explanation => "Démarche"

/-- What the user does between two passes. -/
structure Input where
  escape : Bool := false
  /-- A new text in the formula field. -/
  edit : Option String := none
  enter : Bool := false
  clicked : Button → Bool := fun _ => false
  /-- A new number in the resolution field. -/
  resolution : Option Nat := none
  /-- A drag over the preview, to the right and down. -/
  drag : Option (Float32 × Float32) := none

/-- What is seen after a pass. -/
structure Picture where
  texts : List String
  preview : Option Preview

structure Window where
  plotter : Plotter
  explanationOpen : Bool

namespace Window

def initial : Window := ⟨.initial, false⟩

def title : String := "Surface complexe"

def formulaLabel : String := "f(z) ="

/-- Shown in the formula field when it is empty. -/
def hint : String := "Ex: z^2, 1/z, sin(z)/z, log(z, 2), zeta(z)"

/-- Radians per point of a drag. -/
def dragSpeed : Float32 := 0.01

/-- Does something with the plotter if it is asked for. -/
def doIf (asked : Bool) (f : Plotter → Plotter) (p : Plotter) : Plotter := if asked then f p else p

def applyAndFocus (p : Plotter) : Plotter := { p.applyFormula with focusEntry := true }

/-- Up to the drawing of the formula field. -/
def begin (input : Input) (p : Plotter) : Plotter :=
  let p := doIf input.escape Plotter.clearEntry p
  let p := doIf p.needsSweep Plotter.sweepAgain p
  { p with entry := input.edit.getD p.entry, focusEntry := false }

/-- The formula field and the buttons below it. -/
def enterFormula (input : Input) (p : Plotter) : Plotter :=
  let p := doIf input.enter applyAndFocus p
  let p := doIf (input.clicked .plot) applyAndFocus p
  let p := doIf (input.clicked .clear) Plotter.clearEntry p
  doIf (input.clicked .clearAll) Plotter.reset p

/-- The modes, the palettes, the check box and the resolution field. The field holds allowed
resolutions only, so a plotter with another one takes the nearest. -/
def choose (input : Input) (p : Plotter) : Plotter :=
  let p := Plot.Mode.all.foldl (fun p m => doIf (input.clicked (.mode m)) (·.setMode m) p) p
  let p := Palette.all.foldl (fun p c => doIf (input.clicked (.palette c)) (·.setPalette c) p) p
  let p := doIf (input.clicked .logHeight) (fun p => p.setLogHeight !p.parameters.logHeight) p
  p.setResolution (input.resolution.getD p.parameters.resolution)

def restoreResolution (input : Input) (p : Plotter) : Plotter :=
  doIf (input.clicked .defaultResolution) Plotter.setDefaultResolution p

def drag (input : Input) (p : Plotter) : Plotter :=
  match input.drag with
  | some (dx, dy) => if dx == 0 && dy == 0 then p else p.turn (dx * dragSpeed) (dy * dragSpeed)
  | none => p

/-- The mesh of the current surface in the current mode, palette and camera. -/
def paint (p : Plotter) : Option Preview :=
  Preview.ofSurface? (.ofAngles p.azimuth p.elevation) p.parameters.mode p.palette p.output

def formulaTexts (entry error : String) : List String :=
  [title, formulaLabel, if entry.isEmpty then hint else entry,
    Button.plot.label, Button.clear.label, Button.clearAll.label] ++
  if error.isEmpty then [] else [error ++ " ; surface tracée : f(z) = z"]

def choiceTexts (resolution : Nat) : List String :=
  ["Mode :"] ++ Plot.Mode.all.map (·.label) ++ Palette.all.map (·.label) ++
    [Button.logHeight.label, "Résolution :", toString resolution ++ " /unité",
      Button.defaultResolution.label]

def singularTexts (s : Plot.Surface Float32) : List String :=
  if s.singularCount = 0 then []
  else
    [toString s.singularCount ++ " point(s) singulier(s) borné(s) sur " ++ toString s.pointCount]

def axisTexts (preview : Option Preview) : List String :=
  if preview.isSome then ["Re", "Im"] else []

def explanationTexts (isOpen : Bool) (e : Explanation) : List String :=
  Button.explanation.label ::
    if isOpen then
      [("Jetons :", e.tokens), ("RPN :", e.postfixItems), ("Arbre :", e.tree),
        ("Note :", e.note)].flatMap fun (label, text) =>
          if text.isEmpty then [label] else [label, text]
    else []

/-- One pass: the window is drawn from top to bottom, and each part acts as soon as it is drawn. -/
def pass (w : Window) (input : Input) : Window × Picture :=
  let shown := begin input w.plotter
  let entered := enterFormula input shown
  let chosen := choose input entered
  let restored := restoreResolution input chosen
  let dragged := drag input restored
  let preview := paint dragged
  let isOpen := w.explanationOpen != input.clicked .explanation
  let texts :=
    formulaTexts shown.entry entered.error ++ choiceTexts chosen.parameters.resolution ++
      singularTexts restored.output ++ axisTexts preview ++
      [Plot.legend dragged.parameters.mode dragged.palette] ++
      explanationTexts isOpen dragged.explanation
  (⟨dragged, isOpen⟩, ⟨texts, preview⟩)

end Window
end Argand
