import Argand.Complex
import Argand.ReadError

namespace Argand

/-- The functions that a formula may call. -/
inductive Builtin
  | sin | cos | tan | csc | sec | cot
  | sinh | cosh | tanh | csch | sech | coth
  | asin | acos | atan | acsc | asec | acot
  | asinh | acosh | atanh | acsch | asech | acoth
  | exp | log | logBase | sqrt | cbrt
  | conj | inverse | re | im | abs | arg
  | gamma | logGamma | digamma | trigamma | polygamma | zeta | zetaOfTerms
deriving DecidableEq, Repr

namespace Builtin

/-- A name under which a function is called, and its number of arguments. -/
structure Entry where
  name : String
  function : Builtin
  arity : Nat
deriving DecidableEq, Repr

/-- All names. One name may have two arities; the first name of a function is the one that is
written. -/
def registry : List Entry :=
  [⟨"sin", sin, 1⟩, ⟨"cos", cos, 1⟩, ⟨"tan", tan, 1⟩, ⟨"csc", csc, 1⟩, ⟨"sec", sec, 1⟩,
    ⟨"cot", cot, 1⟩, ⟨"sinh", sinh, 1⟩, ⟨"cosh", cosh, 1⟩, ⟨"tanh", tanh, 1⟩, ⟨"csch", csch, 1⟩,
    ⟨"sech", sech, 1⟩, ⟨"coth", coth, 1⟩, ⟨"asin", asin, 1⟩, ⟨"acos", acos, 1⟩,
    ⟨"atan", atan, 1⟩, ⟨"acsc", acsc, 1⟩, ⟨"asec", asec, 1⟩, ⟨"acot", acot, 1⟩,
    ⟨"asinh", asinh, 1⟩, ⟨"acosh", acosh, 1⟩, ⟨"atanh", atanh, 1⟩, ⟨"acsch", acsch, 1⟩,
    ⟨"asech", asech, 1⟩, ⟨"acoth", acoth, 1⟩, ⟨"exp", exp, 1⟩, ⟨"log", log, 1⟩, ⟨"ln", log, 1⟩,
    ⟨"log", logBase, 2⟩, ⟨"sqrt", sqrt, 1⟩, ⟨"cbrt", cbrt, 1⟩, ⟨"conj", conj, 1⟩,
    ⟨"inv", inverse, 1⟩, ⟨"re", re, 1⟩, ⟨"im", im, 1⟩, ⟨"abs", abs, 1⟩, ⟨"norm", abs, 1⟩,
    ⟨"mod", abs, 1⟩, ⟨"arg", arg, 1⟩, ⟨"gamma", gamma, 1⟩, ⟨"lngamma", logGamma, 1⟩,
    ⟨"digamma", digamma, 1⟩, ⟨"trigamma", trigamma, 1⟩, ⟨"polygamma", polygamma, 2⟩,
    ⟨"zeta", zeta, 1⟩, ⟨"zetac", zetaOfTerms, 2⟩]

/-- Whether a function has this name, whatever its arity. -/
def isName (name : String) : Bool := registry.any (·.name == name)

/-- The function with the given name and number of arguments. The arity that an error tells is the
first one of the name. -/
def resolve (name : String) (count : Nat) : Except ReadError.Cause Builtin :=
  match registry.filter (·.name == name) with
  | [] => .error (.unknownName name)
  | first :: rest =>
    match (first :: rest).find? (·.arity == count) with
    | some entry => .ok entry.function
    | none => .error (.wrongArity name first.arity count)

def entry? (f : Builtin) : Option Entry := registry.find? (·.function == f)

def name (f : Builtin) : String := (f.entry?.map (·.name)).getD "?"

def arity (f : Builtin) : Nat := (f.entry?.map (·.arity)).getD 1

end Builtin

/-- The named numbers. -/
def constant? (name : String) : Option (Complex Float) :=
  if name == "pi" then some ⟨3.141592653589793, 0.0⟩
  else if name == "e" then some ⟨2.718281828459045, 0.0⟩
  else none

end Argand
