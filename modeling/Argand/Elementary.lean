namespace Argand

/-- The real constants and functions that a machine takes from its mathematical library. Nothing
built on this class looks inside them. -/
class Elementary (R : Type) where
  pi : R
  euler : R
  sqrt : R → R
  cbrt : R → R
  exp : R → R
  log : R → R
  /-- The logarithm of one plus the argument. -/
  log1p : R → R
  sin : R → R
  cos : R → R
  sinh : R → R
  cosh : R → R
  /-- The angle of the point with ordinate `y` and abscissa `x`. -/
  atan2 (y x : R) : R
  /-- The length of the hypotenuse. -/
  hypot : R → R → R
  pow : R → R → R

/-- The conversion of a computed coordinate to the number that a buffer stores. -/
class Narrowing (R S : Type) where
  narrow : R → S

end Argand
