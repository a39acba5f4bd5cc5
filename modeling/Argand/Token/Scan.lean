import Argand.Numeral
import Argand.ReadError

namespace Argand.Token

/-- A token with the number of characters that it takes after its first one. -/
abbrev Lexeme := Token × Nat

def symbol? : Char → Option Token
  | '(' => some leftParen
  | ')' => some rightParen
  | ',' => some comma
  | '+' => some plus
  | '-' => some minus
  | '/' => some slash
  | '^' => some caret
  | 'π' => some (name "pi")
  | '√' => some (name "sqrt")
  | _ => none

/-- A word in lower case. The imaginary unit is a word of its own. -/
def ofWord (word : List Char) : Token :=
  let lower := word.map Char.toLower
  if lower = ['i'] then imaginary 1.0 else name (String.ofList lower)

/-- The letter that makes a number imaginary, unless it begins a longer word. -/
def imaginarySuffix : List Char → Bool
  | c :: rest => (c == 'i' || c == 'I') && !(rest.head?.any isNameChar)
  | [] => false

/-- The number at the front of a text that starts with one. -/
def lexNumber (cs : List Char) : Except ReadError.Cause Lexeme :=
  let numeral := Numeral.read cs
  let length := numeral.toChars.length
  let value := numeral.toDecimal.toFloat
  if !value.isFinite then .error (.invalidNumber (String.ofList numeral.toChars))
  else if imaginarySuffix (cs.drop length) then .ok (imaginary value, length)
  else .ok (number value, length - 1)

/-- The token that starts with the given character, which is not blank. -/
def lex (c : Char) (rest : List Char) : Except ReadError.Cause Lexeme :=
  match symbol? c with
  | some token => .ok (token, 0)
  | none =>
    if c == '*' then .ok (if rest.head? = some '*' then (caret, 1) else (star, 0))
    else if c.isAlpha || c == '_' then
      let tail := rest.takeWhile isNameChar
      .ok (ofWord (c :: tail), tail.length)
    else if Numeral.startsAt c rest then lexNumber (c :: rest)
    else .error (.unexpectedCharacter c)

/-- The tokens of a text that begins at the given position, after those already found, which are
in reverse order. -/
def scanFrom (position : Nat) (found : List (Located Token)) :
    List Char → Except ReadError (List (Located Token))
  | [] => .ok found.reverse
  | c :: rest =>
    if isBlank c then scanFrom (position + 1) found rest
    else
      match lex c rest with
      | .error cause => .error ⟨position, cause⟩
      | .ok (token, extra) =>
        scanFrom (position + 1 + extra) (⟨token, position⟩ :: found) (rest.drop extra)
termination_by cs => cs.length

/-- The tokens of a text. -/
def scan (cs : List Char) : Except ReadError (List (Located Token)) := scanFrom 0 [] cs

end Argand.Token
