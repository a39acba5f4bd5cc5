import Argand.Token

namespace Argand

/-- Why a formula cannot be read. -/
inductive ReadError.Cause
  | emptyInput
  | unexpectedCharacter (c : Char)
  | invalidNumber (text : String)
  | unknownName (name : String)
  /-- A function name without an opening parenthesis right after it. -/
  | callWithoutParenthesis (name : String)
  | unclosedParenthesis
  | unopenedParenthesis
  | missingOperand
  | unexpectedToken (token : Token)
  | wrongArity (name : String) (expected received : Nat)
  /-- A comma that does not separate the arguments of a call. -/
  | commaOutsideCall
  | tooDeep (levels : Nat)
  | tooLong (nodes : Nat)
deriving DecidableEq

/-- A cause with the index, counted in characters, of the place it concerns. -/
structure ReadError where
  position : Nat
  cause : ReadError.Cause
deriving DecidableEq

namespace ReadError

def Cause.message : Cause → String
  | emptyInput => "entrée vide"
  | unexpectedCharacter c => "caractère inattendu: '" ++ c.toString ++ "'"
  | invalidNumber text => "nombre invalide: " ++ text
  | unknownName name => "identifiant inconnu: " ++ name
  | callWithoutParenthesis name => "fonction sans parenthèses: " ++ name
  | unclosedParenthesis => "parenthèse non fermée"
  | unopenedParenthesis => "parenthèse fermante sans ouvrante"
  | missingOperand => "opérande manquant"
  | unexpectedToken token => "jeton inattendu: " ++ token.text
  | wrongArity name expected received =>
    name ++ " attend " ++ toString expected ++ " argument(s), reçu " ++ toString received
  | commaOutsideCall => "virgule hors d’un appel de fonction"
  | tooDeep levels => "expression trop profonde (plus de " ++ toString levels ++ " niveaux)"
  | tooLong nodes => "expression trop longue (plus de " ++ toString nodes ++ " nœuds)"

def message (e : ReadError) : String :=
  e.cause.message ++ " (position " ++ toString e.position ++ ")"

end ReadError
end Argand
