import Argand.Complex.Bounded

namespace Argand.Plot

/-- Why a plot cannot be drawn at all. -/
inductive ConfigurationError
  | zeroResolution
  | unknownMode (code : Nat)
deriving DecidableEq, Repr

def ConfigurationError.message : ConfigurationError → String
  | zeroResolution => "résolution nulle: la grille demande au moins 1 subdivision par unité"
  | unknownMode code => "mode de tracé inconnu: " ++ toString code

/-- Why there is no result. A refusal is told to the caller; the other failure ends the program. -/
inductive Failure (E : Type)
  | refused (e : E)
  /-- A buffer is asked for that is larger than any can be. -/
  | capacityOverflow
deriving DecidableEq, Repr

def Failure.map {E E' : Type} (f : E → E') : Failure E → Failure E'
  | refused e => refused (f e)
  | capacityOverflow => capacityOverflow

/-- Which part of a value is the height; the other part is the colour. -/
inductive Mode
  | real
  | imaginary
  /-- The length is the height and the angle in turns the colour. -/
  | length
deriving DecidableEq, Repr

namespace Mode

def all : List Mode := [real, imaginary, length]

def code : Mode → Nat
  | real => 0
  | imaginary => 1
  | length => 2

def ofCode (n : Nat) : Except ConfigurationError Mode :=
  match all.find? (·.code == n) with
  | some mode => .ok mode
  | none => .error (.unknownMode n)

def label : Mode → String
  | real => "Re / Im"
  | imaginary => "Im / Re"
  | length => "|w| / arg"

/-- The height and the colour of a bounded value. -/
@[inline] def split {R : Type} (S : Type) [Scalar R] [Scalar S] [Narrowing R S] [Elementary R]
    (mode : Mode) (w : Complex R) : R × R :=
  match mode with
  | real => (w.re, w.im)
  | imaginary => (w.im, w.re)
  | length => (w.norm, w.turn S)

end Mode
end Argand.Plot
