import Argand.Decimal
import Argand.Text

namespace Argand

/-- The words of a formula. -/
inductive Token
  | number (value : Float)
  | imaginary (value : Float)
  /-- A function, a constant or the variable, in lower case. -/
  | name (text : String)
  | plus
  | minus
  | star
  | slash
  | caret
  | leftParen
  | rightParen
  | comma
deriving DecidableEq

namespace Token

/-- The text from which the token can be read again. -/
def text : Token → String
  | number v => floatText v
  | imaginary v => floatText v ++ "i"
  | name s => s
  | plus => "+"
  | minus => "-"
  | star => "*"
  | slash => "/"
  | caret => "^"
  | leftParen => "("
  | rightParen => ")"
  | comma => ","

/-- The texts of the tokens with one space between two of them. -/
def listText (tokens : List Token) : String := " ".intercalate (tokens.map text)

end Token
end Argand
