/-
Errors that stop the reading of a source text, each with the position it is reported at. A message is the position in
parentheses and the cause; a tip is a hint for the author of the text, empty where there is none.
-/
import TypedScript.Source
import TypedScript.Text.Quoted

namespace TypedScript

/-- why a source text cannot be read -/
inductive SyntaxFlaw
  /-- no lexeme starts with the character -/
  | unrecognisedToken (token : String)
  /-- the grammar has no place for the token here -/
  | unexpectedToken (token : String)
  /-- the grammar has no place for the token here, and it is known what was wanted -/
  | unexpectedTokenDetailed (token message : String)
  /-- the number has no 64-bit value -/
  | numberParse (token : String)
  /-- no quote ends the string on its line -/
  | unterminatedString
deriving DecidableEq, Inhabited

namespace SyntaxFlaw

/-- the name of the kind of flaw -/
def name : SyntaxFlaw → String
  | unrecognisedToken _ => "UnrecognisedToken"
  | unexpectedToken _ => "UnexpectedToken"
  | unexpectedTokenDetailed _ _ => "UnexpectedTokenDetailed"
  | numberParse _ => "NumberParseError"
  | unterminatedString => "UnterminatedString"

def message : SyntaxFlaw → String
  | unrecognisedToken token => "unrecognised token: " ++ quoted token
  | unexpectedToken token => "unexpected token: " ++ quoted token
  | unexpectedTokenDetailed token message => "unexpected token (" ++ message ++ "): " ++ quoted token
  | numberParse token => "error parsing number: " ++ quoted token
  | unterminatedString => "unterminated string literal"

def tip : SyntaxFlaw → String
  | unrecognisedToken _ => ""
  | unexpectedToken token => "Unexpected token: `" ++ token ++ "`, did you miss a semicolon?"
  | unexpectedTokenDetailed token message => "Unexpected token: `" ++ token ++ "`, " ++ message
  | numberParse token => "Invalid number: `" ++ token ++ "`, is it above the integer limit?"
  | unterminatedString => "String literal is missing its closing quote"

end SyntaxFlaw

structure SyntaxError where
  flaw : SyntaxFlaw
  position : Position
deriving DecidableEq, Inhabited

namespace SyntaxError

def message (e : SyntaxError) : String := "(" ++ e.position.render ++ ") " ++ e.flaw.message

def tip (e : SyntaxError) : String := e.flaw.tip

end SyntaxError

end TypedScript
