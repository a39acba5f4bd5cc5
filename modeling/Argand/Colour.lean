import Argand.Plot.Mode
import Argand.Scalar.Machine

namespace Argand

/-- An opaque colour. -/
structure Colour where
  red : UInt8
  green : UInt8
  blue : UInt8
deriving DecidableEq, Repr

namespace Colour

/-- The red, green and blue parts of a hue in turns, with a saturation and a value. -/
@[specialize] def ofHue {S : Type} [Scalar S] (h s v : S) : S × S × S :=
  let h := Scalar.remEuclid h 1 * 6.0
  let sector := Scalar.truncate h
  let f := h - (sector : S)
  let p := v * (1 - s)
  let q := v * (1 - f * s)
  let t := v * (1 - (1 - f) * s)
  match sector % 6 with
  | 0 => (v, t, p)
  | 1 => (q, v, p)
  | 2 => (p, v, t)
  | 3 => (p, q, v)
  | 4 => (t, p, v)
  | _ => (v, p, q)

/-- The byte of a part in `[0, 1]`. -/
def byte (x : Float32) : UInt8 := (Scalar.roundHalfUp (Scalar.clamp 0 1 x * 255.0)).toUInt8

end Colour

/-- How a hue is shown. -/
inductive Palette
  | coloured
  | grey
deriving DecidableEq, Repr

namespace Palette

def all : List Palette := [coloured, grey]

def label : Palette → String
  | coloured => "Couleur"
  | grey => "N/B"

end Palette

namespace Plot

def saturation : Float32 := 0.75

/-- From the whole line to `(0, 1)`. -/
def sigmoid (x : Float32) : Float32 := 1.0 / (1.0 + (-x).exp)

/-- The hue of a channel, in turns. An angle is one already. -/
def hue (mode : Mode) (channel : Float32) : Float32 :=
  match mode with
  | .length => channel
  | .real | .imaginary => sigmoid channel

def colour (mode : Mode) (palette : Palette) (channel : Float32) : Colour :=
  let h := hue mode channel
  match palette with
  | .coloured =>
    let (r, g, b) := Colour.ofHue h saturation 1.0
    ⟨Colour.byte r, Colour.byte g, Colour.byte b⟩
  | .grey => ⟨Colour.byte h, Colour.byte h, Colour.byte h⟩

/-- What the height and the colour mean. -/
def legend (mode : Mode) (palette : Palette) : String :=
  let (height, channel) := match mode with
    | .real => ("Re f(z)", "Im f(z)")
    | .imaginary => ("Im f(z)", "Re f(z)")
    | .length => ("|f(z)|", "arg f(z)")
  let meaning := match mode, palette with
    | .length, .coloured => "teinte = " ++ channel ++ " (rouge → vert → bleu → rouge, sur un tour)"
    | .length, .grey => "gris = " ++ channel ++ " (noir = 0, blanc → 2π)"
    | _, .coloured => "teinte = sigmoïde(" ++ channel ++ ") (cyan = 0, rouge aux extrêmes)"
    | _, .grey => "gris = sigmoïde(" ++ channel ++ ") (noir = plus petit, blanc = plus grand)"
  "hauteur = " ++ height ++ "\n" ++ meaning

end Plot
end Argand
